/-!
# Members in order

A configuration is written down in some order, and that order is kept: a `Members` list pairs keys
with values in the order in which the keys were first set.  Setting a key again changes its value
where it stands, and taking a key away leaves the order of the others alone.

* `get?`, `has`, `keys` --- reading;
* `set` --- a key gets a value, in place or at the end;
* `setNew` --- a key gets a value only if it has none;
* `erase` --- a key is taken away.

`get?_set_self`, `get?_set_ne` and `get?_erase_ne` say what each change does to the reading.
-/

namespace LintSetup

/-- Keys with values, in order. -/
abbrev Members (α : Type) := List (String × α)

namespace Members

variable {α : Type}

/-- The value of a key: the one of its first occurrence. -/
def get? : Members α → String → Option α
  | [], _ => none
  | (k, v) :: rest, key => if k = key then some v else get? rest key

/-- Whether a key has a value. -/
def has (members : Members α) (key : String) : Bool := (get? members key).isSome

/-- The keys in order. -/
def keys (members : Members α) : List String := members.map (·.1)

/-- Gives a key a value: where the key stands, or at the end. -/
def set : Members α → String → α → Members α
  | [], key, value => [(key, value)]
  | (k, v) :: rest, key, value =>
    if k = key then (k, value) :: rest else (k, v) :: set rest key value

/-- Gives a key a value at the end, unless it has one. -/
def setNew (members : Members α) (key : String) (value : α) : Members α :=
  if has members key then members else members ++ [(key, value)]

/-- Takes a key away; the others stay in order. -/
def erase (members : Members α) (key : String) : Members α :=
  members.filter fun (k, _) => k != key

/-- The members of a list in which a repeated key keeps its first position and its last value. -/
def ofList (entries : List (String × α)) : Members α :=
  entries.foldl (fun members (k, v) => set members k v) []

@[simp] theorem get?_nil (key : String) : get? ([] : Members α) key = none := rfl

theorem get?_cons (k : String) (v : α) (rest : Members α) (key : String) :
    get? ((k, v) :: rest) key = if k = key then some v else get? rest key := rfl

@[simp] theorem set_nil (key : String) (value : α) :
    set ([] : Members α) key value = [(key, value)] := rfl

/-- A key that was set reads as its new value. -/
@[simp] theorem get?_set_self (members : Members α) (key : String) (value : α) :
    get? (set members key value) key = some value := by
  induction members with
  | nil => simp [get?]
  | cons m rest ih =>
    by_cases h : m.1 = key <;> simp [set, get?, h, ih]

/-- The other keys read as before. -/
theorem get?_set_ne (members : Members α) {key other : String} (value : α) (h : other ≠ key) :
    get? (set members key value) other = get? members other := by
  induction members with
  | nil => simp [get?, Ne.symm h]
  | cons m rest ih =>
    by_cases hk : m.1 = key
    · simp [set, get?, hk, Ne.symm h]
    · by_cases ho : m.1 = other <;> simp [set, get?, hk, ho, ih, h]

/-- Of two values that a key is given, the second one stays. -/
@[simp] theorem set_set (members : Members α) (key : String) (value later : α) :
    set (set members key value) key later = set members key later := by
  induction members with
  | nil => simp [set]
  | cons m rest ih =>
    by_cases h : m.1 = key <;> simp [set, h, ih]

/-- A key that was taken away has no value. -/
@[simp] theorem get?_erase_self (members : Members α) (key : String) :
    get? (erase members key) key = none := by
  induction members with
  | nil => rfl
  | cons m rest ih =>
    by_cases h : m.1 = key
    · simpa [erase, h] using ih
    · simpa [erase, h, get?] using ih

/-- Taking a key away does not touch the others. -/
theorem get?_erase_ne (members : Members α) {key other : String} (h : other ≠ key) :
    get? (erase members key) other = get? members other := by
  induction members with
  | nil => rfl
  | cons m rest ih =>
    by_cases hk : m.1 = key
    · simpa [erase, get?, hk, Ne.symm h] using ih
    · by_cases ho : m.1 = other
      · simp [erase, get?, ho, h]
      · simpa [erase, get?, hk, ho] using ih

/-- A key has a value exactly when it occurs. -/
theorem has_iff_mem_keys (members : Members α) (key : String) :
    has members key = true ↔ key ∈ keys members := by
  induction members with
  | nil => simp [has, keys]
  | cons m rest ih =>
    by_cases h : m.1 = key
    · simp [has, keys, get?, h]
    · have h' : key ≠ m.1 := fun e => h e.symm
      simpa [has, keys, get?, h, h'] using ih

/-- Setting a key keeps the keys in order and adds it at the end when it is new. -/
theorem keys_set (members : Members α) (key : String) (value : α) :
    keys (set members key value) =
      if key ∈ keys members then keys members else keys members ++ [key] := by
  induction members with
  | nil => simp [keys]
  | cons m rest ih =>
    by_cases h : m.1 = key
    · simp [set, keys, h]
    · have h' : key ≠ m.1 := fun e => h e.symm
      have := ih
      simp only [keys] at this ⊢
      by_cases hm : key ∈ rest.map (·.1) <;> simp_all [set]

end Members
end LintSetup
