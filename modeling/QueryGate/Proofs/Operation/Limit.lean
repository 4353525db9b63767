import QueryGate.Proofs.Operation.Agreement

/-! # The selection limit

Reading an operation without a limit visits a number of selections, whether it ends well or with an
error. A limit makes no difference if it is not below this number. Otherwise reading is cut off. -/
namespace QueryGate

open GraphQL (Document OperationDefinition Selection)

namespace Counted

variable {α β : Type}

theorem within_eq_ok_iff {limit left left' : Nat} {x : Counted α} {a : α} :
    x.within limit left = .ok (a, left') ↔ x.result = .ok a ∧ left' + x.visits = left := by
  obtain ⟨result, visits⟩ := x
  rw [within]
  cases result with
  | error y => split <;> simp [Except.map]
  | ok b =>
    by_cases hvisits : visits ≤ left
    · rw [if_pos hvisits]
      simp only [Except.map, Except.ok.injEq, Prod.mk.injEq]
      exact and_congr_right fun _ => by omega
    · rw [if_neg hvisits]
      have hover : ¬ left' + visits = left := by omega
      simp [hover]

end Counted

namespace Operation

/-- Reading within a limit gives what it gives without one if the limit is not below the number of
selections that are visited then, and otherwise it fails for the limit. So a larger limit does not
change an operation, and an operation has no more nodes than the limit. Each selection is counted
while there is something left to count it against. -/
theorem limit_is_exact (text : String) (name : Option String) (s : Schema) (spreads : Bool) :
    (∀ limit, read text name s ⟨spreads, limit⟩ =
      if (readCounted text name s spreads).visits ≤ limit then
        (readCounted text name s spreads).result
      else .error (.limitExceeded limit)) ∧
    (∀ limit, (readCounted text name s spreads).result ≠ .error (.limitExceeded limit)) ∧
    (∀ limit a, read text name s ⟨spreads, limit⟩ = .ok a →
      Node.listSize a.nodes ≤ limit ∧
        ∀ more, limit ≤ more → read text name s ⟨spreads, more⟩ = .ok a) ∧
    ∀ (e : Expansion) (depth : Nat) (visiting : List String) (parent : Option String)
      (seen : List String) (left left' : Nat) (selections : List Selection) (ns : List Node),
      (e.unopened visiting).length ≤ depth →
      e.nodes (e.enter depth visiting) visiting parent seen left selections = .ok (ns, left') →
      left' + (e.countedNodes visiting parent seen selections).visits = left := by
  have hread : ∀ limit, read text name s ⟨spreads, limit⟩ =
      (readCounted text name s spreads).cut limit := fun limit =>
    read_counted text name s ⟨spreads, limit⟩
  refine ⟨hread, readCounted_unlimited text name s spreads, fun limit a ha => ?_, ?_⟩
  · refine ⟨(read_from ha).1.counted, fun more hmore => ?_⟩
    rw [hread, Counted.cut] at ha ⊢
    split at ha
    · rename_i hvisits
      rw [if_pos (Nat.le_trans hvisits hmore)]
      exact ha
    · cases ha
  · intro e depth visiting parent seen left left' selections ns hdepth h
    rw [Expansion.nodes_counted (e.enter_counted depth visiting hdepth)] at h
    exact (Counted.within_eq_ok_iff.mp h).2

/-- A spread that is repeated is visited although it adds nothing. -/
theorem repeated_parts_are_visited : (readCounted repeatedText none articles true).visits = 6 ∧
    ∃ a, read repeatedText none articles ⟨true, 6⟩ = .ok a ∧ Node.listSize a.nodes = 5 := by
  have hchecked : (read repeatedText none articles ⟨true, 5⟩).toOption.isNone = true ∧
      (read repeatedText none articles ⟨true, 6⟩).toOption.any
        (fun a => Node.listSize a.nodes == 5) = true := by
    decide +kernel
  obtain ⟨hnone, hsome⟩ := hchecked
  obtain ⟨hexact, -⟩ := limit_is_exact repeatedText none articles true
  obtain ⟨a, ha, hsize⟩ := exists_ok_of_any hsome
  refine ⟨?_, a, ha, beq_iff_eq.mp hsize⟩
  rw [hexact] at ha hnone
  split at ha
  · rename_i hsix
    have hfive : ¬ (readCounted repeatedText none articles true).visits ≤ 5 := by
      intro hfive
      simp [hfive, ha, Except.toOption] at hnone
    omega
  · cases ha

end Operation

end QueryGate
