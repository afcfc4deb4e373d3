import KernelIR.Proofs.Arena.Replacing
import KernelIR.Rewrite.Run
import KernelIR.Tree.Validity

/-!
# Accepted replacements

A replacement that is not refused is live and detached and reads nothing that goes with the matched
statement. That is all that replacing asks of it, but not all that it needs: another statement that
reads something below the match, from outside, makes the replacement a fault after it was accepted.
-/

namespace KernelIR

namespace Arena

variable {a : Arena} {s replacement : StmtId}

theorem readsDiscardedWith_eq_false (h : a.readsDiscardedWith s replacement = .ok false)
    (hissued : ∀ b ∈ a.view.children s, a.view.HasBlock b)
    (hself : s ∉ a.view.operands replacement) :
    ∃ doomed, a.view.Owns s doomed ∧ ∀ t ∈ a.view.operands replacement, t ∉ doomed := by
  simp only [readsDiscardedWith, bind_eq_ok, kind_eq_ok] at h
  rcases h with ⟨k, hk, h⟩
  cases hcontainer : k.isContainer with
  | true =>
      simp only [hcontainer, if_true, bind_eq_ok, owned_eq_ok, kind_eq_ok, pure_eq_ok] at h
      rcases h with ⟨doomed, howns, k', hk', hreads⟩
      refine ⟨doomed, howns, fun t ht => ?_⟩
      rw [View.operands_of_kind hk'] at ht
      simpa using List.any_eq_false.1 hreads t ht
  | false =>
      -- What is no container owns nothing but itself.
      have hleaf : a.view.children s = [] := by
        rw [View.children_of_kind hk]
        by_contra hne
        rw [Kind.isContainer_eq_true_iff.2 hne] at hcontainer
        cases hcontainer
      have hbelow : a.view.ownedBelow s = [] := by
        simp [View.ownedBelow, View.ownedChildren, hleaf]
      have hresolves : a.view.Resolves s := ⟨exists_kind_iff.1 ⟨k, hk⟩, hissued⟩
      refine ⟨[s], Visits.singleton_of_below hresolves hbelow, ?_⟩
      rintro t ht hts
      rw [List.mem_singleton.1 hts] at ht
      exact hself ht

/-- The reasons to refuse are tried in order, and none of them applied. -/
theorem not_refused (h : a.refusal? s replacement = .ok none) :
    s ≠ replacement ∧ a.view.Placeable replacement ∧ s ∉ a.view.operands replacement ∧
      a.readsDiscardedWith s replacement = .ok false ∧
      a.ownsBlockAround s replacement = .ok false := by
  by_cases hself : replacement = s
  · simp [refusal?, hself] at h
  · cases hlive : a.view.erased replacement with
    | true => simp [refusal?, hself, isErased_eq, hlive] at h
    | false =>
        simp only [refusal?, hself, isErased_eq, hlive, Bool.false_eq_true, if_false, bind_eq_ok,
          parent_eq_ok] at h
        rcases h with ⟨p, ⟨hstmt, hp⟩, h⟩
        cases p with
        | some b => cases h
        | none =>
            simp only [Option.isSome_none, Bool.false_eq_true, if_false, bind_eq_ok,
              kind_eq_ok] at h
            rcases h with ⟨k, hk, h⟩
            cases hreads : k.operands.contains s with
            | true =>
                rw [hreads] at h
                cases h
            | false =>
                simp only [hreads, Bool.false_eq_true, if_false, bind_eq_ok] at h
                rcases h with ⟨discarded, hdiscarded, h⟩
                cases discarded with
                | true => cases h
                | false =>
                    simp only [Bool.false_eq_true, if_false, bind_eq_ok] at h
                    rcases h with ⟨around, haround, h⟩
                    cases around with
                    | true => cases h
                    | false =>
                        have hnot : s ∉ a.view.operands replacement := by
                          rw [View.operands_of_kind hk]
                          simpa using hreads
                        exact ⟨fun hs => hself hs.symm, ⟨hstmt, hlive, hp⟩, hnot, hdiscarded,
                          haround⟩

/-- What is known of a replacement that is not refused. -/
theorem of_refusal?_eq_none (h : a.refusal? s replacement = .ok none)
    (hissued : ∀ b ∈ a.view.children s, a.view.HasBlock b) :
    s ≠ replacement ∧ a.view.Placeable replacement ∧
      ∃ doomed, a.view.Owns s doomed ∧ ∀ t ∈ a.view.operands replacement, t ∉ doomed := by
  rcases not_refused h with ⟨hne, hnew, hself, hdiscarded, _⟩
  exact ⟨hne, hnew, readsDiscardedWith_eq_false hdiscarded hissued hself⟩

end Arena

/-- After the generator, an accepted replacement leaves only the replacing itself to be done. -/
theorem Rule.substitute_of_accepted {σ : Type} {rule : Rule σ} {a a' : Arena} {st st' : σ}
    {s replacement : StmtId}
    (hgenerate : ((rule.generate a).run st).result = .ok ((.ok replacement, a'), st'))
    (haccepted : a'.refusal? s replacement = .ok none) :
    (rule.substitute a st s).result =
      (a'.replace s replacement).map fun e => .replaced s replacement e.arena st' := by
  have hopen : (rule.substitute a st s).result =
      ((Edit.replace s replacement).apply a' >>= fun done =>
        Logged.emit (.replaced s replacement) >>= fun _ =>
          pure (.replaced s replacement done.2 st')).result := by
    rw [substitute, Logged.bind_of_ok hgenerate]
    show ((liftM (a'.refusal? s replacement) : Logged _) >>= _).result = _
    rw [haccepted]
    rfl
  rw [hopen, Edit.apply]
  cases h : a'.replace s replacement with
  | error fault => rfl
  | ok e => rfl

namespace Arena.Arises

variable {a : Arena} {s replacement : StmtId}

/-- An accepted replacement is carried out exactly if no live statement outside reads what goes with
the match, other than the match itself. If one does, the run has the fault of the erasure, which is
noticed when the replacement already stands where the match stood. -/
theorem replaced_iff_of_accepted (h : a.Arises) (haccepted : a.refusal? s replacement = .ok none) :
    ∃ doomed, a.owned s = .ok doomed ∧
      ((∃ e, a.replace s replacement = .ok e) ↔ a.view.UnreadBut s doomed) ∧
      (¬ a.view.UnreadBut s doomed →
        ∃ t ∈ doomed, ∃ n, a.replace s replacement = .error (.erasedUsed t n)) ∧
      ∀ (σ : Type) (rule : Rule σ) (before : Arena) (st st' : σ),
        ((rule.generate before).run st).result = .ok ((.ok replacement, a), st') →
          ((∃ round, (rule.substitute before st s).result = .ok round) ↔
            a.view.UnreadBut s doomed) := by
  have hissued := h.linked.hasBlock_of_child s
  rcases of_refusal?_eq_none haccepted hissued with ⟨hne, hnew, doomed, howns, hreads⟩
  rcases replace_of_owns h hne hnew howns hreads with ⟨hok, hfault⟩
  have hiff : (∃ e, a.replace s replacement = .ok e) ↔ a.view.UnreadBut s doomed := by
    constructor
    · rintro ⟨e, he⟩
      by_contra hread
      rcases hfault hread with ⟨t, _, n, herror⟩
      rw [he] at herror
      cases herror
    · intro hunread
      rcases hok hunread with ⟨e, he, _⟩
      exact ⟨e, he⟩
  refine ⟨doomed, owned_eq_ok.2 howns, hiff, hfault, ?_⟩
  intro σ rule before st st' hgenerate
  rw [← hiff, Rule.substitute_of_accepted hgenerate haccepted]
  cases a.replace s replacement with
  | error fault => simp [Except.map]
  | ok e => simp [Except.map]

end Arena.Arises

namespace Arena

/-- A loop, a statement after it that reads its body, and a detached constant. -/
def readBehindLoop : Arena := ofEdits
  [.createBlock, .createBlock, .createStmt (.whileLoop ⟨1⟩) .void, .push ⟨0⟩ ⟨0⟩,
    .createStmt (.const (.int 1)) .i32, .push ⟨1⟩ ⟨1⟩,
    .createStmt (.print ⟨1⟩) .void, .push ⟨0⟩ ⟨2⟩, .createStmt (.const (.int 0)) .i32]

theorem accepted_but_read_outside :
    readBehindLoop.Arises ∧
      readBehindLoop.validate (.block ⟨0⟩) = .ok ⟨[], [], [], []⟩ ∧
      readBehindLoop.refusal? ⟨0⟩ ⟨3⟩ = .ok none ∧
      (¬ ∃ e, readBehindLoop.replace ⟨0⟩ ⟨3⟩ = .ok e) ∧
      readBehindLoop.refusal? ⟨2⟩ ⟨3⟩ = .ok none ∧
      ∃ e, readBehindLoop.replace ⟨2⟩ ⟨3⟩ = .ok e := by
  have harises : readBehindLoop.Arises := arises_ofEdits _
  have hloop : readBehindLoop.refusal? ⟨0⟩ ⟨3⟩ = .ok none := by decide +kernel
  have hprint : readBehindLoop.refusal? ⟨2⟩ ⟨3⟩ = .ok none := by decide +kernel
  refine ⟨harises, by decide +kernel, hloop, ?_, hprint, ?_⟩
  · rcases harises.replaced_iff_of_accepted hloop with ⟨doomed, howned, hiff, _⟩
    have hdoomed : readBehindLoop.owned ⟨0⟩ = .ok [⟨0⟩, ⟨1⟩] := by decide +kernel
    rw [howned] at hdoomed
    cases hdoomed
    rw [hiff]
    intro hunread
    have hread : readBehindLoop.view.reading? ⟨⟨2⟩, 0⟩ = some ⟨1⟩ := by decide +kernel
    exact absurd (hunread ⟨1⟩ (by decide) (by decide) _ hread) (by decide)
  · rcases harises.replaced_iff_of_accepted hprint with ⟨doomed, howned, hiff, _⟩
    have hdoomed : readBehindLoop.owned ⟨2⟩ = .ok [⟨2⟩] := by decide +kernel
    rw [howned] at hdoomed
    cases hdoomed
    refine hiff.2 fun t ht hne => absurd (List.mem_singleton.1 ht) hne

end Arena

end KernelIR
