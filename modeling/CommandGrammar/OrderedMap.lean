/-!
Finite maps in the order of first insertion.

A map is a list of entries without a repeated key. Inserting under a new key appends; inserting
under a known key replaces the value and keeps the place. So the order of the keys is the order in
which they first appeared, and later stages number and print by it.
-/

set_option autoImplicit false
set_option relaxedAutoImplicit false

namespace CommandGrammar

/-- A finite map whose entries stand in the order of first insertion. -/
structure OrderedMap (κ α : Type) where
  entries : List (κ × α)
  nodup : (entries.map Prod.fst).Nodup
  deriving DecidableEq

abbrev NameMap (α : Type) := OrderedMap String α

namespace OrderedMap

variable {κ α β σ : Type}

/-- The entries with `value` under `key`: in the old place if the key is known, else at the end. -/
def put [DecidableEq κ] (key : κ) (value : α) : List (κ × α) → List (κ × α)
  | [] => [(key, value)]
  | entry :: entries =>
    if entry.1 = key then (key, value) :: entries else entry :: put key value entries

theorem map_fst_put [DecidableEq κ] (key : κ) (value : α) (entries : List (κ × α)) :
    (put key value entries).map Prod.fst =
      if key ∈ entries.map Prod.fst then entries.map Prod.fst
      else entries.map Prod.fst ++ [key] := by
  induction entries with
  | nil => simp [put]
  | cons entry entries ih =>
    by_cases h : entry.1 = key
    · simp [put, h]
    · have h' : key ≠ entry.1 := fun e => h e.symm
      simp only [put, h, if_false, List.map_cons, ih, List.mem_cons, h', false_or]
      split <;> simp

theorem nodup_put [DecidableEq κ] (key : κ) (value : α) {entries : List (κ × α)}
    (h : (entries.map Prod.fst).Nodup) : ((put key value entries).map Prod.fst).Nodup := by
  rw [map_fst_put]
  split
  · exact h
  · next hk =>
    refine List.nodup_append.2 ⟨h, by simp, ?_⟩
    intro a ha b hb
    rw [List.mem_singleton.1 hb]
    exact fun e => hk (e ▸ ha)

def empty : OrderedMap κ α := ⟨[], by simp⟩

instance : EmptyCollection (OrderedMap κ α) := ⟨empty⟩

instance : Inhabited (OrderedMap κ α) := ⟨empty⟩

def keys (m : OrderedMap κ α) : List κ := m.entries.map Prod.fst

def get? [DecidableEq κ] (m : OrderedMap κ α) (key : κ) : Option α := m.entries.lookup key

def contains [DecidableEq κ] (m : OrderedMap κ α) (key : κ) : Bool := key ∈ m.keys

def insert [DecidableEq κ] (m : OrderedMap κ α) (key : κ) (value : α) : OrderedMap κ α :=
  ⟨put key value m.entries, nodup_put key value m.nodup⟩

@[simp]
theorem keys_insert [DecidableEq κ] (m : OrderedMap κ α) (key : κ) (value : α) :
    (m.insert key value).keys = if key ∈ m.keys then m.keys else m.keys ++ [key] :=
  map_fst_put key value m.entries

theorem contains_iff [DecidableEq κ] (m : OrderedMap κ α) (key : κ) :
    m.contains key = true ↔ key ∈ m.keys := by
  simp [contains]

theorem lookup_cons_eq_ite [DecidableEq κ] (key key' : κ) (value : α) (entries : List (κ × α)) :
    ((key, value) :: entries).lookup key' =
      if key' = key then some value else entries.lookup key' := by
  by_cases h : key' = key
  · simp [h]
  · have hb : (key' == key) = false := by simp [h]
    rw [List.lookup_cons, hb, if_neg h]

theorem lookup_put [DecidableEq κ] (key key' : κ) (value : α) (entries : List (κ × α)) :
    (put key value entries).lookup key' =
      if key' = key then some value else entries.lookup key' := by
  induction entries with
  | nil => exact lookup_cons_eq_ite key key' value []
  | cons entry entries ih =>
    obtain ⟨first, kept⟩ := entry
    by_cases h : first = key
    · simp only [put, h, if_true, lookup_cons_eq_ite]
      split <;> rfl
    · simp only [put, h, if_false, lookup_cons_eq_ite, ih]
      split
      · next he => rw [if_neg (he ▸ h)]
      · rfl

theorem get?_insert [DecidableEq κ] (m : OrderedMap κ α) (key key' : κ) (value : α) :
    (m.insert key value).get? key' = if key' = key then some value else m.get? key' :=
  lookup_put key key' value m.entries

/-- The map that results from inserting the entries from left to right. -/
def ofList [DecidableEq κ] (entries : List (κ × α)) : OrderedMap κ α :=
  entries.foldl (fun m entry => m.insert entry.1 entry.2) empty

/-- The map with the value under `key`, if there is one, replaced by its image. -/
def modify [DecidableEq κ] (m : OrderedMap κ α) (key : κ) (f : α → α) : OrderedMap κ α where
  entries := m.entries.map fun entry => (entry.1, if entry.1 = key then f entry.2 else entry.2)
  nodup := by
    rw [List.map_map]
    exact m.nodup

@[simp]
theorem keys_modify [DecidableEq κ] (m : OrderedMap κ α) (key : κ) (f : α → α) :
    (m.modify key f).keys = m.keys := by
  simp [modify, keys, Function.comp_def]

def threadEntries (f : σ → κ → α → σ × β) : σ → List (κ × α) → σ × List (κ × β)
  | state, [] => (state, [])
  | state, (key, value) :: entries =>
    let head := f state key value
    let tail := threadEntries f head.1 entries
    (tail.1, (key, head.2) :: tail.2)

theorem map_fst_threadEntries (f : σ → κ → α → σ × β) (state : σ) (entries : List (κ × α)) :
    (threadEntries f state entries).2.map Prod.fst = entries.map Prod.fst := by
  induction entries generalizing state with
  | nil => rfl
  | cons entry entries ih => simp [threadEntries, ih]

def thread (f : σ → κ → α → σ × β) (state : σ) (m : OrderedMap κ α) : σ × OrderedMap κ β :=
  ((threadEntries f state m.entries).1,
    ⟨(threadEntries f state m.entries).2, by rw [map_fst_threadEntries]; exact m.nodup⟩)

@[simp]
theorem keys_thread (f : σ → κ → α → σ × β) (state : σ) (m : OrderedMap κ α) :
    (m.thread f state).2.keys = m.keys :=
  map_fst_threadEntries f state m.entries

end OrderedMap

end CommandGrammar
