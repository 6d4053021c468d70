import CommandGrammar.OrderedMap

set_option autoImplicit false
set_option relaxedAutoImplicit false

namespace CommandGrammar.OrderedMap

variable {κ α β σ : Type}

theorem ext {m m' : OrderedMap κ α} (h : m.entries = m'.entries) : m = m' := by
  cases m
  cases m'
  cases h
  rfl

theorem mem_put [DecidableEq κ] {key : κ} {value : α} {entries : List (κ × α)} {entry : κ × α}
    (h : entry ∈ put key value entries) : entry = (key, value) ∨ entry ∈ entries := by
  induction entries with
  | nil => simpa [put] using h
  | cons first entries ih =>
    rw [put] at h
    split at h
    · rcases List.mem_cons.mp h with rfl | h
      · exact .inl rfl
      · exact .inr (List.mem_cons_of_mem first h)
    · rcases List.mem_cons.mp h with rfl | h
      · exact .inr List.mem_cons_self
      · exact (ih h).imp_right (List.mem_cons_of_mem first)

theorem lookup_eq_some_iff [DecidableEq κ] {entries : List (κ × α)}
    (nodup : (entries.map Prod.fst).Nodup) {key : κ} {value : α} :
    entries.lookup key = some value ↔ (key, value) ∈ entries := by
  induction entries with
  | nil => simp
  | cons entry entries ih =>
    obtain ⟨first, kept⟩ := entry
    rw [List.map_cons, List.nodup_cons] at nodup
    rw [lookup_cons_eq_ite, List.mem_cons]
    split
    · next he =>
      subst he
      constructor
      · rintro ⟨⟩
        exact .inl rfl
      · rintro (h | h)
        · cases h
          rfl
        · exact absurd (List.mem_map.mpr ⟨_, h, rfl⟩) nodup.1
    · next hne =>
      rw [ih nodup.2]
      constructor
      · exact .inr
      · rintro (h | h)
        · cases h
          exact absurd rfl hne
        · exact h

theorem get?_eq_some_iff [DecidableEq κ] (m : OrderedMap κ α) {key : κ} {value : α} :
    m.get? key = some value ↔ (key, value) ∈ m.entries :=
  lookup_eq_some_iff m.nodup

theorem mem_keys_iff (m : OrderedMap κ α) {key : κ} :
    key ∈ m.keys ↔ ∃ value, (key, value) ∈ m.entries := by
  simp [keys]

theorem get?_foldl_insert [DecidableEq κ] (entries : List (κ × α)) (m : OrderedMap κ α) (key : κ) :
    (entries.foldl (fun m entry => m.insert entry.1 entry.2) m).get? key =
      (entries.reverse.lookup key).or (m.get? key) := by
  induction entries generalizing m with
  | nil => simp
  | cons entry entries ih =>
    obtain ⟨first, value⟩ := entry
    rw [List.foldl_cons, ih, get?_insert, List.reverse_cons, List.lookup_append,
      lookup_cons_eq_ite, Option.or_assoc]
    split <;> simp

theorem get?_ofList [DecidableEq κ] (entries : List (κ × α)) (key : κ) :
    (ofList entries).get? key = entries.reverse.lookup key := by
  rw [ofList, get?_foldl_insert]
  simp [get?, empty]

theorem put_of_not_mem [DecidableEq κ] {key : κ} {entries : List (κ × α)}
    (h : key ∉ entries.map Prod.fst) (value : α) :
    put key value entries = entries ++ [(key, value)] := by
  induction entries with
  | nil => rfl
  | cons first entries ih =>
    rw [List.map_cons, List.mem_cons, not_or] at h
    rw [put, if_neg (Ne.symm h.1), ih h.2, List.cons_append]

theorem entries_insert_of_not_mem [DecidableEq κ] {m : OrderedMap κ α} {key : κ}
    (h : key ∉ m.keys) (value : α) : (m.insert key value).entries = m.entries ++ [(key, value)] :=
  put_of_not_mem h value

theorem keys_insert_of_not_mem [DecidableEq κ] {m : OrderedMap κ α} {key : κ}
    (h : key ∉ m.keys) (value : α) : (m.insert key value).keys = m.keys ++ [key] := by
  rw [keys_insert, if_neg h]

theorem lookup_modify [DecidableEq κ] (key key' : κ) (f : α → α) (entries : List (κ × α)) :
    (entries.map fun entry => (entry.1, if entry.1 = key then f entry.2 else entry.2)).lookup key' =
      if key' = key then (entries.lookup key').map f else entries.lookup key' := by
  induction entries with
  | nil => simp
  | cons entry entries ih =>
    obtain ⟨first, value⟩ := entry
    rw [List.map_cons, lookup_cons_eq_ite, lookup_cons_eq_ite, ih]
    by_cases h : key' = first
    · subst h
      by_cases h' : key' = key <;> simp [h']
    · simp [h]

theorem get?_modify [DecidableEq κ] (m : OrderedMap κ α) (key key' : κ) (f : α → α) :
    (m.modify key f).get? key' = if key' = key then (m.get? key').map f else m.get? key' :=
  lookup_modify key key' f m.entries

theorem entries_foldl_insert [DecidableEq κ] {entries : List (κ × α)} {m : OrderedMap κ α}
    (nodup : ((m.entries ++ entries).map Prod.fst).Nodup) :
    (entries.foldl (fun m entry => m.insert entry.1 entry.2) m).entries = m.entries ++ entries := by
  induction entries generalizing m with
  | nil => simp
  | cons entry entries ih =>
    have hfresh : entry.1 ∉ m.entries.map Prod.fst := by
      rw [List.map_append, List.map_cons] at nodup
      intro hm
      exact (List.nodup_append.mp nodup).2.2 _ hm _ List.mem_cons_self rfl
    have hinsert : (m.insert entry.1 entry.2).entries = m.entries ++ [entry] :=
      entries_insert_of_not_mem hfresh entry.2
    rw [List.foldl_cons, ih, hinsert, List.append_assoc, List.singleton_append]
    rw [hinsert, List.append_assoc, List.singleton_append]
    exact nodup

theorem entries_ofList [DecidableEq κ] {entries : List (κ × α)}
    (nodup : (entries.map Prod.fst).Nodup) : (ofList entries).entries = entries :=
  entries_foldl_insert (m := empty) nodup

theorem getElem?_threadEntries (f : σ → κ → α → σ × β) (state : σ) (entries : List (κ × α))
    (k : Nat) :
    (threadEntries f state entries).2[k]? = entries[k]?.map fun entry =>
      (entry.1, (f (threadEntries f state (entries.take k)).1 entry.1 entry.2).2) := by
  induction entries generalizing state k with
  | nil => simp [threadEntries]
  | cons entry entries ih =>
    cases k with
    | zero => simp [threadEntries]
    | succ k => simp [threadEntries, ih]

section MapValues

def mapValues (f : α → β) (m : OrderedMap κ α) : OrderedMap κ β where
  entries := m.entries.map fun entry => (entry.1, f entry.2)
  nodup := by
    rw [List.map_map]
    exact m.nodup

variable (f : α → β) (m : OrderedMap κ α)

@[simp]
theorem keys_mapValues : (m.mapValues f).keys = m.keys := by
  simp [mapValues, keys, Function.comp_def]

@[simp]
theorem contains_mapValues [DecidableEq κ] (key : κ) :
    (m.mapValues f).contains key = m.contains key := by
  simp [contains]

theorem lookup_map [DecidableEq κ] (entries : List (κ × α)) (key : κ) :
    (entries.map fun entry => (entry.1, f entry.2)).lookup key = (entries.lookup key).map f := by
  induction entries with
  | nil => rfl
  | cons entry entries ih =>
    rw [List.map_cons, lookup_cons_eq_ite, lookup_cons_eq_ite, ih]
    split <;> rfl

theorem get?_mapValues [DecidableEq κ] (key : κ) : (m.mapValues f).get? key = (m.get? key).map f :=
  lookup_map f m.entries key

theorem put_map [DecidableEq κ] (key : κ) (value : α) (entries : List (κ × α)) :
    put key (f value) (entries.map fun entry => (entry.1, f entry.2)) =
      (put key value entries).map fun entry => (entry.1, f entry.2) := by
  induction entries with
  | nil => rfl
  | cons entry entries ih =>
    rw [List.map_cons, put, put, ih]
    split <;> rfl

theorem insert_mapValues [DecidableEq κ] (key : κ) (value : α) :
    (m.mapValues f).insert key (f value) = (m.insert key value).mapValues f :=
  ext (put_map f key value m.entries)

theorem modify_mapValues [DecidableEq κ] {change : α → α} {change' : β → β}
    (h : ∀ value, change' (f value) = f (change value)) (key : κ) :
    (m.mapValues f).modify key change' = (m.modify key change).mapValues f := by
  apply ext
  change (m.entries.map _).map _ = (m.entries.map _).map _
  rw [List.map_map, List.map_map]
  apply List.map_congr_left
  intro entry _
  by_cases hkey : entry.1 = key
  · simp [hkey, h]
  · simp [hkey]

end MapValues

end CommandGrammar.OrderedMap
