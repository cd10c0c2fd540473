import LintSetup.Proofs.Bridge.Files
import LintSetup.Proofs.Wizard.Preparation

/-!
# The course of a set-up

A set-up is ordered: packages are installed when everything has been asked and looked up, an
inspection comes after the installation, and the configuration file comes last.  Any step may fail,
and the steps after it are left out.

* `Installs`, `Finishes`, `Renders` --- what each of the later steps asks for, and what it comes to.
* `Course` --- the ways in which a set-up can go; `course_of_leads` says that there are no others.
* `Course.installs_le`, `Course.writes_eq` --- how often packages are installed and files are
  written, in any of these ways.
-/

namespace LintSetup.Wizard

open Dialogue hiding bind_assoc

variable {σ : Type}

/-! ## Installing, finishing, saving -/

/-- What the user is told before packages are installed. -/
def announcement (all : List String) : String :=
  "Installing dependencies:" ++ String.join (all.map ("\n    " ++ ·)) ++ "\n"

/-- What an installation asks for and comes to: without packages nothing, and otherwise the user is
told of the packages, and all of them are installed at once. -/
inductive Installs : List String → List (Exchange Wizard) → Except Failure Unit → Prop
  | nothing : Installs [] [] (.ok ())
  | once {all : List String} (needed : all ≠ []) (result : Except Failure Unit) :
    Installs all [⟨.host (.print (announcement all)), ()⟩, ⟨.packages (.install all), result⟩] result

theorem exists_of_leads_installAll {all : List String} {es : List (Exchange Wizard)}
    {r : Except Error Unit} (h : (installAll all).run.Leads es r) :
    ∃ result, Installs all es result ∧ r = result.mapError .failed := by
  cases all with
  | nil =>
    obtain ⟨rfl, rfl⟩ := leads_pure_except_iff.mp h
    exact ⟨.ok (), .nothing, rfl⟩
  | cons name rest =>
    obtain ⟨done, hinstall, rfl⟩ := exists_of_leads_say_bind h
    obtain ⟨ps, result, hleads, rfl, rfl⟩ := exists_of_leads_packages hinstall
    obtain rfl := leads_ask_iff.mp hleads
    exact ⟨result, .once (List.cons_ne_nil name rest) result, rfl⟩

/-- What finishing a draft asks for and comes to: the drafted configuration as it is, or what an
inspection makes of it. -/
inductive Finishes (context : Context) (debug : Bool) (d : Draft) :
    List (Exchange Wizard) → Except Error Config → Prop
  | drafted (settled : d.patterns = none) : Finishes context debug d [] (.ok d.config)
  | inspected {patterns : List String} {hs : List (Exchange Host)} {outcome : Inspection.Outcome}
    (wanted : d.patterns = some patterns)
    (inspection : (Bridge.inspect context.directory (context.settings.inspection debug) d.config
      patterns).Leads hs (.ok (.ok outcome))) :
    Finishes context debug d
      (onHost hs ++ [⟨.host (.print (outcome.summary ++ "\n")), ()⟩]) (.ok outcome.config)
  | uninspected {patterns : List String} {hs : List (Exchange Host)}
    {e : Inspection.InspectError} (wanted : d.patterns = some patterns)
    (inspection : (Bridge.inspect context.directory (context.settings.inspection debug) d.config
      patterns).Leads hs (.ok (.error e))) :
    Finishes context debug d (onHost hs) (.error (.inspection e))
  | unlinted {patterns : List String} {hs : List (Exchange Host)} {f : Failure}
    (wanted : d.patterns = some patterns)
    (inspection : (Bridge.inspect context.directory (context.settings.inspection debug) d.config
      patterns).Leads hs (.error f)) :
    Finishes context debug d (onHost hs) (.error (.failed f))

theorem finishes_of_leads {context : Context} {debug : Bool} {d : Draft}
    {es : List (Exchange Wizard)} {r : Except Error Config}
    (h : (finish context debug d).run.Leads es r) : Finishes context debug d es r := by
  unfold finish at h
  split at h
  · next hnone =>
    obtain ⟨rfl, rfl⟩ := leads_pure_except_iff.mp h
    exact .drafted hnone
  · next patterns hsome =>
    obtain ⟨e, herror, rfl⟩ | ⟨during, inspection, said, hinspect, hsay, rfl⟩ :=
      leads_bind_except_iff.mp h
    · obtain ⟨hs, f | inspection, hleads, rfl, ha⟩ := exists_of_leads_hostAttempt herror
      · obtain rfl := Except.error.inj ha
        exact .unlinted hsome hleads
      · cases ha
    obtain ⟨hs, f | answer, hleads, rfl, ha⟩ := exists_of_leads_hostAttempt hinspect
    · cases ha
    obtain rfl := Except.ok.inj ha
    rcases inspection with e | outcome
    · obtain ⟨rfl, rfl⟩ := leads_pure_iff.mp hsay
      rw [List.append_nil]
      exact .uninspected hsome hleads
    · obtain ⟨after, hpure, rfl⟩ := exists_of_leads_say_bind hsay
      obtain ⟨rfl, rfl⟩ := leads_pure_except_iff.mp hpure
      exact .inspected hsome hleads

/-- The text of a configuration file, and what is asked for it: the configuration in the format, or
what the linter made of that.  If the linter fails, the text stays as it is. -/
inductive Renders (path : String) (config : Config) (format : FileFormat) :
    List (Exchange Host) → String → Prop
  | plain (h : format.isMended = false) : Renders path config format [] (format.text config)
  | mended {hs : List (Exchange Host)} {better : Except Failure (Option String)}
    (h : format.isMended = true)
    (fix : (Bridge.fix ((Path.parent? path).getD ".") (format.text config) config).Leads hs better) :
    Renders path config format hs (mended (format.text config) better)

theorem renders_of_leads {path : String} {config : Config} {format : FileFormat}
    {hs : List (Exchange Host)} {text : String} (h : (textFor path config format).Leads hs text) :
    Renders path config format hs text := by
  unfold textFor at h
  dsimp only at h
  split at h
  · next hmended =>
    obtain ⟨before, better, after, hfix, hpure, rfl⟩ := leads_bind_iff.mp h
    obtain ⟨rfl, rfl⟩ := leads_pure_iff.mp hpure
    rw [List.append_nil]
    exact .mended hmended hfix
  · next hplain =>
    obtain ⟨rfl, rfl⟩ := leads_pure_iff.mp h
    exact .plain (Bool.eq_false_iff.mpr hplain)

/-- A set-up without a `package.json` ends at once. -/
theorem setUp_of_not_hasPackageJson {context : Context} (h : context.hasPackageJson = false)
    (debug : Bool) : setUp context debug = throw (.failed (.of .packageJsonMissing)) := by
  rw [setUp, h]
  rfl

/-- Any other set-up prepares a plan, installs its packages, finishes its draft and saves what that
comes to. -/
theorem setUp_of_hasPackageJson {context : Context} (h : context.hasPackageJson = true)
    (debug : Bool) :
    setUp context debug = (do
      let p ← prepare context
      installAll p.packages
      let config ← finish context debug p.draft
      hostAttempt (save (context.configPath p.choice.format.extension) config p.choice.format)
      return context.configPath p.choice.format.extension) := by
  rw [setUp, prepare, h, if_neg (by decide)]
  simp only [bind_assoc, pure_bind]

/-- What a set-up comes to when its file is written or cannot be. -/
def resultOf (path : String) : Except IoError Unit → Except Error String
  | .ok () => .ok path
  | .error e => .error (.failed (.during (.writeFile path) (.io e)))

/-- The last step: the text is made, and it is written. -/
theorem exists_of_leads_save {path : String} {config : Config} {format : FileFormat}
    {es : List (Exchange Wizard)} {r : Except Error String}
    (h : (hostAttempt (save path config format) >>= fun _ => (pure path : Session String)).run.Leads
      es r) :
    ∃ rendering text written, Renders path config format rendering text ∧
      es = onHost rendering ++ [⟨.host (.write path text), written⟩] ∧
        r = resultOf path written := by
  obtain ⟨hs, a, hleads, rfl, rfl⟩ := exists_of_leads_hostAttempt_pure h
  obtain ⟨rendering, text, after, htext, hafter, rfl⟩ := leads_bind_iff.mp hleads
  obtain ⟨asked, written, rest, hask, hpure, rfl⟩ := leads_bind_iff.mp hafter
  obtain rfl := leads_ask_iff.mp hask
  refine ⟨rendering, text, written, renders_of_leads htext, ?_⟩
  rcases (written : Except IoError Unit) with e | ⟨⟩
  · obtain ⟨rfl, rfl⟩ := leads_pure_iff.mp hpure
    exact ⟨onHost_append _ _, rfl⟩
  · obtain ⟨rfl, rfl⟩ := leads_pure_iff.mp hpure
    exact ⟨onHost_append _ _, rfl⟩

/-! ## The set-up -/

/-- The ways in which a set-up can go: what is asked, with the answers, and what it comes to. -/
inductive Course (context : Context) (debug : Bool) :
    List (Exchange Wizard) → Except Error String → Prop
  /-- There is no `package.json`, and nothing is asked. -/
  | noPackageJson (missing : context.hasPackageJson = false) :
    Course context debug [] (.error (.failed (.of .packageJsonMissing)))
  /-- A question is not answered, or a look-up fails, and nothing is changed. -/
  | unprepared {asked : List (Exchange Wizard)} {e : Error}
    (present : context.hasPackageJson = true)
    (failed : (prepare context).run.Leads asked (.error e))
    (unchanged : ∀ e ∈ asked, Request.IsPreparation e.asked) :
    Course context debug asked (.error e)
  /-- The plan is settled, but its packages cannot be installed. -/
  | uninstalled {asked installing : List (Exchange Wizard)} {p : Plan} {f : Failure}
    (present : context.hasPackageJson = true) (prepared : Prepared context asked p)
    (failed : Installs p.packages installing (.error f)) :
    Course context debug (asked ++ installing) (.error (.failed f))
  /-- The packages are installed, but the inspection fails. -/
  | unfinished {asked installing finishing : List (Exchange Wizard)} {p : Plan} {e : Error}
    (present : context.hasPackageJson = true) (prepared : Prepared context asked p)
    (installed : Installs p.packages installing (.ok ()))
    (failed : Finishes context debug p.draft finishing (.error e)) :
    Course context debug (asked ++ installing ++ finishing) (.error e)
  /-- The configuration is finished, and the file is written or cannot be. -/
  | finished {asked installing finishing : List (Exchange Wizard)} {p : Plan} {config : Config}
    {rendering : List (Exchange Host)} {path text : String} {written : Except IoError Unit}
    (present : context.hasPackageJson = true) (prepared : Prepared context asked p)
    (installed : Installs p.packages installing (.ok ()))
    (finished : Finishes context debug p.draft finishing (.ok config))
    (place : path = context.configPath p.choice.format.extension)
    (rendered : Renders path config p.choice.format rendering text) :
    Course context debug
      (asked ++ installing ++ finishing ++ onHost rendering ++ [⟨.host (.write path text), written⟩])
      (resultOf path written)

/-- Every branch of a set-up is one of these ways. -/
theorem course_of_leads {context : Context} {debug : Bool} {es : List (Exchange Wizard)}
    {r : Except Error String} (h : (setUp context debug).run.Leads es r) :
    Course context debug es r := by
  cases hjson : context.hasPackageJson with
  | false =>
    rw [setUp_of_not_hasPackageJson hjson] at h
    obtain ⟨rfl, rfl⟩ := leads_pure_iff.mp h
    exact .noPackageJson hjson
  | true =>
    rw [setUp_of_hasPackageJson hjson] at h
    obtain ⟨e, hfail, rfl⟩ | ⟨asked, p, rest, hprepare, h₁, rfl⟩ := leads_bind_except_iff.mp h
    · exact .unprepared hjson hfail (prepares_prepare context _ _ hfail).1
    have hprepared := prepared_of_leads hprepare
    obtain ⟨e, hfail, rfl⟩ | ⟨installing, done, rest, hinstall, h₂, rfl⟩ :=
      leads_bind_except_iff.mp h₁
    · obtain ⟨f | done, hinstalls, hresult⟩ := exists_of_leads_installAll hfail
      · obtain rfl := Except.error.inj hresult
        exact .uninstalled hjson hprepared hinstalls
      · cases hresult
    obtain ⟨f | done, hinstalls, hresult⟩ := exists_of_leads_installAll hinstall
    · cases hresult
    obtain ⟨e, hfail, rfl⟩ | ⟨finishing, config, rest, hfinish, h₃, rfl⟩ :=
      leads_bind_except_iff.mp h₂
    · rw [← List.append_assoc]
      exact .unfinished hjson hprepared hinstalls (finishes_of_leads hfail)
    obtain ⟨rendering, text, written, hrenders, rfl, rfl⟩ := exists_of_leads_save h₃
    simp only [← List.append_assoc]
    exact .finished hjson hprepared hinstalls (finishes_of_leads hfinish) rfl hrenders

/-! ## Installations and writes -/

/-- The installation that an exchange asked for. -/
def install? : Exchange Wizard → Option (List String)
  | ⟨.packages (.install all), _⟩ => some all
  | _ => none

/-- The file that an exchange was to write, with its text. -/
def write? : Exchange Wizard → Option (String × String)
  | ⟨.host (.write path text), _⟩ => some (path, text)
  | _ => none

/-- The installations that were asked for. -/
def installs (es : List (Exchange Wizard)) : List (List String) := es.filterMap install?

/-- The files that were to be written, with their texts. -/
def writes (es : List (Exchange Wizard)) : List (String × String) := es.filterMap write?

@[simp] theorem installs_append (es fs : List (Exchange Wizard)) :
    installs (es ++ fs) = installs es ++ installs fs :=
  List.filterMap_append

@[simp] theorem writes_append (es fs : List (Exchange Wizard)) :
    writes (es ++ fs) = writes es ++ writes fs :=
  List.filterMap_append

/-- Exchanges that install nothing and write nothing. -/
def ChangesNothing (es : List (Exchange Wizard)) : Prop := installs es = [] ∧ writes es = []

theorem changesNothing_of_forall {es : List (Exchange Wizard)}
    (h : ∀ e ∈ es, install? e = none ∧ write? e = none) : ChangesNothing es :=
  ⟨List.filterMap_eq_nil_iff.mpr fun e he => (h e he).1,
    List.filterMap_eq_nil_iff.mpr fun e he => (h e he).2⟩

theorem ChangesNothing.append {es fs : List (Exchange Wizard)} (he : ChangesNothing es)
    (hf : ChangesNothing fs) : ChangesNothing (es ++ fs) := by
  rw [ChangesNothing, installs_append, writes_append, he.1, he.2]
  exact hf

theorem changesNothing_of_isPreparation {es : List (Exchange Wizard)}
    (h : ∀ e ∈ es, Request.IsPreparation e.asked) : ChangesNothing es := by
  refine changesNothing_of_forall fun e he => ?_
  have hasked := h e he
  obtain ⟨q | r | r, answer⟩ := e
  · exact ⟨rfl, rfl⟩
  · cases r with
    | startLookup | awaitLookup => exact ⟨rfl, rfl⟩
    | install => exact hasked.elim
  · cases r with
    | files => exact ⟨rfl, rfl⟩
    | _ => exact hasked.elim

theorem Prepared.changesNothing {context : Context} {es : List (Exchange Wizard)} {p : Plan}
    (h : Prepared context es p) : ChangesNothing es :=
  changesNothing_of_isPreparation h.asked

theorem changesNothing_onHost {hs : List (Exchange Host)}
    (h : ∀ e ∈ hs, Bridge.LeavesFiles e.asked) : ChangesNothing (onHost hs) := by
  refine changesNothing_of_forall (List.forall_mem_map.mpr fun e he => ⟨rfl, ?_⟩)
  have hasked := h e he
  obtain ⟨r, answer⟩ := e
  cases r with
  | write => exact hasked.elim
  | _ => rfl

/-- Packages are installed once or not at all, and an installation writes no file. -/
theorem Installs.effects {all : List String} {es : List (Exchange Wizard)}
    {result : Except Failure Unit} (h : Installs all es result) :
    (installs es).length ≤ 1 ∧ [] ∉ installs es ∧ writes es = [] := by
  cases h with
  | nothing => exact ⟨Nat.zero_le 1, List.not_mem_nil, rfl⟩
  | once hsome => exact ⟨Nat.le_refl 1, fun hnil => hsome (List.mem_singleton.mp hnil).symm, rfl⟩

theorem Finishes.changesNothing {context : Context} {debug : Bool} {d : Draft}
    {es : List (Exchange Wizard)} {r : Except Error Config}
    (h : Finishes context debug d es r) : ChangesNothing es := by
  cases h with
  | drafted => exact ⟨rfl, rfl⟩
  | inspected _ hleads =>
    exact (changesNothing_onHost (Bridge.leavesFiles_inspect _ _ _ _ _ _ hleads)).append ⟨rfl, rfl⟩
  | uninspected _ hleads | unlinted _ hleads =>
    exact changesNothing_onHost (Bridge.leavesFiles_inspect _ _ _ _ _ _ hleads)

theorem Renders.changesNothing {path : String} {config : Config} {format : FileFormat}
    {hs : List (Exchange Host)} {text : String} (h : Renders path config format hs text) :
    ChangesNothing (onHost hs) := by
  cases h with
  | plain => exact ⟨rfl, rfl⟩
  | mended _ hleads => exact changesNothing_onHost (Bridge.leavesFiles_fix _ _ _ _ _ hleads)

namespace Course

variable {context : Context} {debug : Bool} {es : List (Exchange Wizard)} {r : Except Error String}

/-- A set-up installs packages at most once, and never an empty list of them. -/
theorem installs_le (h : Course context debug es r) :
    (installs es).length ≤ 1 ∧ [] ∉ installs es := by
  cases h with
  | noPackageJson => exact ⟨Nat.zero_le 1, List.not_mem_nil⟩
  | unprepared _ _ hasked =>
    rw [(changesNothing_of_isPreparation hasked).1]
    exact ⟨Nat.zero_le 1, List.not_mem_nil⟩
  | uninstalled _ hprepared hinstalls =>
    rw [installs_append, hprepared.changesNothing.1, List.nil_append]
    exact ⟨hinstalls.effects.1, hinstalls.effects.2.1⟩
  | unfinished _ hprepared hinstalls hfinishes =>
    rw [installs_append, installs_append, hprepared.changesNothing.1,
      hfinishes.changesNothing.1, List.nil_append, List.append_nil]
    exact ⟨hinstalls.effects.1, hinstalls.effects.2.1⟩
  | finished _ hprepared hinstalls hfinishes _ hrenders =>
    have hlast : ∀ path text, ∀ written : Except IoError Unit,
        installs [⟨.host (.write path text), written⟩] = [] := fun _ _ _ => rfl
    simp only [installs_append, hprepared.changesNothing.1,
      hfinishes.changesNothing.1, hrenders.changesNothing.1, hlast, List.nil_append,
      List.append_nil]
    exact ⟨hinstalls.effects.1, hinstalls.effects.2.1⟩

/-- A set-up writes nothing before its last step, which is to write the configuration file; without
that step it has failed. -/
theorem writes_eq (h : Course context debug es r) :
    (writes es = [] ∧ ∃ e, r = .error e) ∨
      ∃ before path text written, es = before ++ [⟨.host (.write path text), written⟩] ∧
        writes before = [] ∧ r = resultOf path written ∧
          ∃ format : FileFormat, path = context.configPath format.extension := by
  cases h with
  | noPackageJson => exact .inl ⟨rfl, _, rfl⟩
  | unprepared _ _ hasked => exact .inl ⟨(changesNothing_of_isPreparation hasked).2, _, rfl⟩
  | uninstalled _ hprepared hinstalls =>
    refine .inl ⟨?_, _, rfl⟩
    rw [writes_append, hprepared.changesNothing.2, hinstalls.effects.2.2,
      List.append_nil]
  | unfinished _ hprepared hinstalls hfinishes =>
    refine .inl ⟨?_, _, rfl⟩
    simp only [writes_append, hprepared.changesNothing.2,
      hinstalls.effects.2.2, hfinishes.changesNothing.2, List.append_nil]
  | finished _ hprepared hinstalls hfinishes hplace hrenders =>
    refine .inr ⟨_, _, _, _, rfl, ?_, rfl, _, hplace⟩
    simp only [writes_append, hprepared.changesNothing.2,
      hinstalls.effects.2.2, hfinishes.changesNothing.2, hrenders.changesNothing.2,
      List.append_nil]

end Course

/-- **How a set-up goes.**  Whoever answers, and whatever state they keep, a set-up goes in one of
the ways of `Course`: each step comes after those before it have succeeded, and where one fails
there are no more.  Packages are installed at most once, and never an empty list of them.  No file
is written before the last step, which writes the configuration file; the set-up succeeds exactly if
it comes to this step and the file can be written. -/
theorem course_setUp (h : Handler Wizard σ) (s : σ) (context : Context) (debug : Bool) :
    let es := (setUp context debug).run.transcript h s
    let r := ((setUp context debug).run.run h s).1
    Course context debug es r ∧ ((installs es).length ≤ 1 ∧ [] ∉ installs es) ∧
      ((writes es = [] ∧ ∃ e, r = .error e) ∨
        ∃ before path text written, es = before ++ [⟨.host (.write path text), written⟩] ∧
          writes before = [] ∧ r = resultOf path written ∧
            ∃ format : FileFormat, path = context.configPath format.extension) := by
  intro es r
  have hcourse : Course context debug es r := course_of_leads (leads_run h _ s)
  exact ⟨hcourse, hcourse.installs_le, hcourse.writes_eq⟩

end LintSetup.Wizard
