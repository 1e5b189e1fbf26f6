/-!
# Entries: values under keys, in the order in which keys were first entered

A list of pairs in which a key is looked up from the front. Entering a key that is there replaces its value and leaves it in its
place, and a new key comes last.

Main statements: `lookup_insert`, an insertion changes what is found under one key only, and `nodup_keys_insert`, no key ever occurs
twice if none did at the start.
-/

namespace QueryStubs.Entries

/-- The entries after a value is put under a key. -/
def insert [DecidableEq α] (key : α) (value : β) : List (α × β) → List (α × β)
  | [] => [(key, value)]
  | (k, v) :: es => if k = key then (k, value) :: es else (k, v) :: insert key value es

/-- The keys after an insertion are those before and the new one. -/
theorem mem_keys_insert [DecidableEq α] {key k : α} {value : β} {es : List (α × β)} :
    k ∈ (insert key value es).map (·.1) ↔ k = key ∨ k ∈ es.map (·.1) := by
  induction es with
  | nil => simp [insert]
  | cons e es ih =>
    obtain ⟨m, v⟩ := e
    unfold insert
    split
    · next h => subst h; simp
    · rw [List.map_cons, List.mem_cons, ih, List.map_cons, List.mem_cons]
      exact or_left_comm

/-- No key occurs twice after an insertion if none did before. -/
theorem nodup_keys_insert [DecidableEq α] {key : α} {value : β} {es : List (α × β)} (h : (es.map (·.1)).Nodup) :
    ((insert key value es).map (·.1)).Nodup := by
  induction es with
  | nil => simp [insert]
  | cons e es ih =>
    obtain ⟨m, v⟩ := e
    rw [List.map_cons, List.nodup_cons] at h
    unfold insert
    split
    · exact List.nodup_cons.2 h
    · next hm =>
      refine List.nodup_cons.2 ⟨fun hk => ?_, ih h.2⟩
      rcases mem_keys_insert.1 hk with hk | hk
      · exact hm hk
      · exact h.1 hk

/-- The first entry is found under its key, and under every other key what the rest holds. -/
theorem lookup_cons [DecidableEq α] (k m : α) (v : β) (es : List (α × β)) :
    ((m, v) :: es).lookup k = if k = m then some v else es.lookup k := by
  rw [List.lookup_cons]
  by_cases h : k = m
  · simp [h]
  · simp [beq_false_of_ne h, h]

/-- After an insertion the new value is found under its key, and under every other key what was found before. -/
theorem lookup_insert [DecidableEq α] (key : α) (value : β) (k : α) (es : List (α × β)) :
    (insert key value es).lookup k = if k = key then some value else es.lookup k := by
  induction es with
  | nil => rw [insert, lookup_cons]
  | cons e es ih =>
    obtain ⟨m, v⟩ := e
    unfold insert
    split
    · next hm =>
      subst hm
      rw [lookup_cons, lookup_cons]
      split <;> rfl
    · next hm =>
      rw [lookup_cons, lookup_cons, ih]
      by_cases h : k = m
      · rw [if_pos h, if_pos h, if_neg fun e => hm (h.symm.trans e)]
      · rw [if_neg h, if_neg h]

end QueryStubs.Entries
