import LintSetup.Inspection.Source

/-!
# Several files in flight

The files of a run share one pool.  At most a given number of them are in flight at a time, in a
queue: while there is room, the next file joins at the end; then the file at the head is looked at.
A file that has not been looked at starts reading; a file whose reading is pending goes back to the
end; a file whose reading has ended is inspected without interruption and leaves the queue, which
ticks the progress display.

* `Task` --- a file in flight;
* `Floor` --- the files in flight, the files to come, the pool and the outcomes so far;
* `Floor.fill` --- lets files join while there is room;
* `runAll` --- looks at the head until no file is left.
-/

namespace LintSetup.Inspection

/-- A file that could not be read. -/
structure ReadFailure where
  path : String
  error : IoError
  deriving DecidableEq, Repr

/-- The wording of a failure to read. -/
def ReadFailure.message (f : ReadFailure) : String :=
  s!"failed to read {f.path}: {f.error.message}"

/-- A file in flight: not looked at yet, or reading, with the number of times that the reading will
still be pending. -/
inductive Task where
  | fresh (path : String)
  | reading (path : String) (pending : Nat) (outcome : Except IoError String)

/-- How often files in flight will still be looked at, not counting the look that starts a reading.
-/
def Task.looksOf : List Task → Nat
  | [] => 0
  | .fresh _ :: ts => looksOf ts
  | .reading _ pending _ :: ts => pending + 1 + looksOf ts

@[simp] theorem Task.looksOf_append (ts us : List Task) :
    looksOf (ts ++ us) = looksOf ts + looksOf us := by
  induction ts with
  | nil => simp [looksOf]
  | cons t ts ih => cases t <;> simp [looksOf, ih, Nat.add_assoc]

@[simp] theorem Task.looksOf_map_fresh (ps : List String) : looksOf (ps.map fresh) = 0 := by
  induction ps with
  | nil => rfl
  | cons p ps ih => simpa [looksOf] using ih

/-- The files in flight, the files to come, the pool, and the outcomes in the order in which the
files were finished. -/
structure Floor where
  queue : List Task
  waiting : List String
  pool : Pool
  outcomes : List (Except ReadFailure FileReport)

namespace Floor

/-- Lets files join the end of the queue while there is room. -/
def fill (limit : Nat) (f : Floor) : Floor :=
  let room := limit - f.queue.length
  { f with
    queue := f.queue ++ (f.waiting.take room).map .fresh
    waiting := f.waiting.drop room }

/-- The number of files whose reading has not started. -/
def unread (f : Floor) : Nat :=
  f.waiting.length + f.queue.countP fun
    | .fresh _ => true
    | .reading .. => false

/-- How often the files in flight will still be looked at after their reading has started. -/
def looks (f : Floor) : Nat := Task.looksOf f.queue

end Floor

/-- Ends a file whose reading has ended. -/
def finishFile (base : Config) (path : String) (outcome : Except IoError String) (pool : Pool) :
    Session (Except ReadFailure FileReport × Pool) := do
  match outcome with
  | .error e =>
    let _ ← ask .ticked
    return (.error ⟨path, e⟩, pool)
  | .ok text =>
    let (report, pool) ← inspectText base text path pool
    let _ ← ask .ticked
    return (.ok report, pool)

@[simp] theorem Floor.unread_fill (limit : Nat) (f : Floor) :
    (f.fill limit).unread = f.unread := by
  have h : (f.waiting.take (limit - f.queue.length)).length +
      (f.waiting.drop (limit - f.queue.length)).length = f.waiting.length := by
    rw [← List.length_append, List.take_append_drop]
  simp only [Floor.unread, Floor.fill, List.countP_append, List.countP_map]
  have all : (f.waiting.take (limit - f.queue.length)).countP
      ((fun t : Task => match t with
        | .fresh _ => true
        | .reading .. => false) ∘ Task.fresh) =
      (f.waiting.take (limit - f.queue.length)).length := by
    rw [List.countP_eq_length]
    simp
  rw [all]
  omega

@[simp] theorem Floor.looks_fill (limit : Nat) (f : Floor) : (f.fill limit).looks = f.looks := by
  rw [Floor.looks, Floor.fill, Task.looksOf_append, Task.looksOf_map_fresh, Nat.add_zero, Floor.looks]

/-- Looks at the head of the queue until no file is left.  Starting a reading leaves fewer files
unread, and every other look leaves fewer looks, so this ends. -/
def runAll (limit : Nat) (base : Config) (f : Floor) : Session Floor :=
  match h : (f.fill limit).queue with
  | [] => pure (f.fill limit)
  | .fresh path :: queue => do
    let reading ← ask (.read path)
    match (reading : Reading) with
    | ⟨0, outcome⟩ =>
      let (result, pool) ← finishFile base path outcome f.pool
      runAll limit base ⟨queue, (f.fill limit).waiting, pool, f.outcomes ++ [result]⟩
    | ⟨pending + 1, outcome⟩ =>
      runAll limit base
        ⟨queue ++ [.reading path pending outcome], (f.fill limit).waiting, f.pool, f.outcomes⟩
  | .reading path 0 outcome :: queue => do
    let (result, pool) ← finishFile base path outcome f.pool
    runAll limit base ⟨queue, (f.fill limit).waiting, pool, f.outcomes ++ [result]⟩
  | .reading path (pending + 1) outcome :: queue =>
    runAll limit base
      ⟨queue ++ [.reading path pending outcome], (f.fill limit).waiting, f.pool, f.outcomes⟩
termination_by (f.unread, f.looks)
decreasing_by
  all_goals
    have hu := Floor.unread_fill limit f
    have hl := Floor.looks_fill limit f
    simp only [Floor.unread, Floor.looks] at hu hl ⊢
    rw [h] at hu hl
    rw [Prod.lex_def]
    simp [Task.looksOf] at hu hl ⊢
    omega

end LintSetup.Inspection
