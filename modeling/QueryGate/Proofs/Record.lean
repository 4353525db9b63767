import QueryGate.Record

/-! # Records are in order

Storing values keeps the names of a record in increasing order, and storing the entries of such a
record one after the other gives the record again. -/
namespace QueryGate.Record

variable {α : Type}

def Ordered (r : Record α) : Prop := r.Pairwise (·.1 < ·.1)

theorem mem_insert {name : String} {value : α} {r : Record α} {e : String × α}
    (h : e ∈ insert name value r) : e = (name, value) ∨ e ∈ r := by
  induction r with
  | nil => exact .inl (List.mem_singleton.mp h)
  | cons f rest ih =>
    rw [insert] at h
    split at h
    · exact List.mem_cons.mp h
    · split at h
      · rcases List.mem_cons.mp h with rfl | h
        · exact .inl rfl
        · exact .inr (List.mem_cons_of_mem _ h)
      · rcases List.mem_cons.mp h with rfl | h
        · exact .inr List.mem_cons_self
        · rcases ih h with rfl | h
          · exact .inl rfl
          · exact .inr (List.mem_cons_of_mem _ h)

theorem insert_comm {name other : String} (h : name ≠ other) (x y : α) (r : Record α) :
    insert name x (insert other y r) = insert other y (insert name x r) := by
  induction r with
  | nil => grind [insert]
  | cons e rest ih =>
    obtain ⟨k, v⟩ := e
    -- Each of the two names is smaller than the first one, equal to it or greater.
    grind [insert]

theorem Ordered.insert {r : Record α} (h : Ordered r) (name : String) (value : α) :
    Ordered (Record.insert name value r) := by
  induction r with
  | nil => exact List.pairwise_singleton _ _
  | cons f rest ih =>
    obtain ⟨k, v⟩ := f
    obtain ⟨hk, hrest⟩ := List.pairwise_cons.mp h
    rw [Record.insert]
    split
    · rename_i hlt
      refine List.pairwise_cons.mpr ⟨fun e he => ?_, h⟩
      rcases List.mem_cons.mp he with rfl | he
      · exact hlt
      · exact String.lt_trans hlt (hk e he)
    · rename_i hlt
      split
      · rename_i heq
        subst heq
        exact List.pairwise_cons.mpr ⟨hk, hrest⟩
      · rename_i hne
        have hgt : k < name := by
          rcases Std.lt_trichotomy name k with h | h | h
          · exact absurd h hlt
          · exact absurd h hne
          · exact h
        refine List.pairwise_cons.mpr ⟨fun e he => ?_, ih hrest⟩
        rcases mem_insert he with rfl | he
        · exact hgt
        · exact hk e he

theorem insert_last {r : Record α} {name : String} (h : ∀ e ∈ r, e.1 < name) (value : α) :
    insert name value r = r ++ [(name, value)] := by
  induction r with
  | nil => rfl
  | cons f rest ih =>
    obtain ⟨k, v⟩ := f
    have hk : k < name := h (k, v) List.mem_cons_self
    have hne : name ≠ k := fun he => String.lt_irrefl k (he ▸ hk)
    have ih := ih fun e he => h e (List.mem_cons_of_mem _ he)
    rw [insert, if_neg (String.lt_asymm hk), if_neg hne, ih]
    rfl

theorem ordered_ofEntries (entries : List (String × α)) : Ordered (ofEntries entries) := by
  have hfold : ∀ r, Ordered r → Ordered (entries.foldl (fun r e => insert e.1 e.2 r) r) := by
    induction entries with
    | nil => exact fun r hr => hr
    | cons e entries ih => exact fun r hr => ih _ (hr.insert e.1 e.2)
  exact hfold [] List.Pairwise.nil

theorem mem_ofEntries {entries : List (String × α)} {e : String × α} (h : e ∈ ofEntries entries) :
    e ∈ entries := by
  have hfold : ∀ r, e ∈ entries.foldl (fun r e => insert e.1 e.2 r) r → e ∈ r ∨ e ∈ entries := by
    clear h
    induction entries with
    | nil => exact fun r hr => .inl hr
    | cons f entries ih =>
      intro r hr
      rcases ih _ hr with hr | he
      · rcases mem_insert hr with rfl | hr
        · exact .inr List.mem_cons_self
        · exact .inl hr
      · exact .inr (List.mem_cons_of_mem f he)
  rcases hfold [] h with h | h
  · cases h
  · exact h

theorem ofEntries_of_ordered {r : Record α} (h : Ordered r) : ofEntries r = r := by
  have hfold : ∀ (done rest : Record α), Ordered (done ++ rest) →
      rest.foldl (fun r e => insert e.1 e.2 r) done = done ++ rest := by
    intro done rest
    induction rest generalizing done with
    | nil => simp
    | cons e rest ih =>
      intro ho
      have hlast : ∀ d ∈ done, d.1 < e.1 := fun d hd =>
        (List.pairwise_append.mp ho).2.2 d hd e List.mem_cons_self
      rw [List.foldl_cons, insert_last hlast, ih]
      · simp
      · simpa using ho
  exact hfold [] r h

end QueryGate.Record
