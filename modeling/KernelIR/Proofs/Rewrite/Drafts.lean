import KernelIR.Proofs.Arena.Links

/-!
# Drafts of a replacement

A generator that keeps to the match it was called for drafts a replacement in a few ways only: it
creates statements and blocks, inserts before the match what it created, and releases blocks of the
match so that the replacement can take them over. What was there before such a draft is found
unchanged after it, but for the owners of those blocks and the new statements before the match.
-/

namespace KernelIR

/-- An edit that a draft for the match `s` of `a` may contain, when the arena has become `now`. A
new statement may hold new blocks and blocks of the match. -/
def Edit.Drafts (a : Arena) (s : StmtId) (now : Arena) : Edit → Prop
  | .createBlock => True
  | .createStmt k _ => ∀ b ∈ k.children, ¬ a.view.HasBlock b ∨ b ∈ a.view.children s
  | .insertBefore b before n => a.view.parent? s = some b ∧ before = s ∧ ¬ a.view.HasStmt n
  | .detachBlock b => b ∈ a.view.children s ∧ ∀ o, now.view.owner? b = some o → o = s
  | _ => False

namespace Arena

/-- What a draft for the match `s` can make of `a`. -/
inductive Drafts (a : Arena) (s : StmtId) : Arena → Prop
  | start : Drafts a s a
  | edit {now next : Arena} {e : Edit} {answer : Edit.Answer} :
      Drafts a s now → e.Drafts a s now → (e.apply now).result = .ok (answer, next) →
        Drafts a s next

/-- A draft for the match `s` of `a` that has ended in `a'` with the replacement `r`. Other new
statements hold no blocks, and new statements read the match or what is live and in a block. -/
structure Drafted (a : Arena) (s : StmtId) (a' : Arena) (r : StmtId) : Prop where
  drafts : a.Drafts s a'
  fresh : ¬ a.view.HasStmt r
  leaves : ∀ n, ¬ a.view.HasStmt n → n ≠ r → a'.view.children n = []
  reads : ∀ n, ¬ a.view.HasStmt n → ∀ t ∈ a'.view.operands n,
    t = s ∨ (a'.view.erased t = false ∧ a'.view.parent? t ≠ none)

end Arena

namespace View

/-- What a draft for the match `s` keeps of `v`. -/
structure Keeps (v : View) (s : StmtId) (v' : View) : Prop where
  hasStmt : ∀ t, v.HasStmt t → v'.HasStmt t
  hasBlock : ∀ b, v.HasBlock b → v'.HasBlock b
  kind : ∀ t, v.HasStmt t → v'.kind? t = v.kind? t
  erased : v'.erased = v.erased
  parent : ∀ t, v.HasStmt t → v'.parent? t = v.parent? t
  listed : ∀ b t, v.HasStmt t → (t ∈ v'.listed b ↔ t ∈ v.listed b)
  owner : ∀ b, v.HasBlock b → b ∉ v.children s → v'.owner? b = v.owner? b
  /-- A new statement is in no block but that of the match. -/
  parent_new : ∀ t b, ¬ v.HasStmt t → v'.parent? t = some b → v.parent? s = some b
  /-- A new statement owns the blocks that it holds. -/
  owner_new : ∀ t, ¬ v.HasStmt t → ∀ b ∈ v'.children t, v'.owner? b = some t

namespace Keeps

variable {v v' : View} {s t : StmtId}

theorem refl (hindexed : v.Indexed) (hlinked : v.Linked) (s : StmtId) : v.Keeps s v := by
  refine ⟨fun _ ht => ht, fun _ hb => hb, fun _ _ => rfl, rfl, fun _ _ => rfl, fun _ _ _ => Iff.rfl,
    fun _ _ _ => rfl, ?_, ?_⟩
  · intro t b ht hp
    exact absurd (hlinked.issued_of_listed b t (hlinked.listed_of_parent hp)).1 ht
  · intro t ht b hb
    rw [hindexed.children_of_not_hasStmt ht] at hb
    cases hb

/-- A statement that was there still holds the blocks that it held. -/
theorem children (h : v.Keeps s v') (ht : v.HasStmt t) : v'.children t = v.children t := by
  rw [View.children, View.children, h.kind t ht]

theorem operands (h : v.Keeps s v') (ht : v.HasStmt t) : v'.operands t = v.operands t := by
  rw [View.operands, View.operands, h.kind t ht]

/-! ## Every edit of a draft keeps it -/

theorem createBlock (h : v.Keeps s v') : v.Keeps s v'.createBlock :=
  { h with hasBlock := fun b hb => Nat.lt_succ_of_lt (h.hasBlock b hb) }

theorem createStmt (h : v.Keeps s v') {k : Kind} (ty : ScalarType)
    (hfree : ∀ b ∈ k.children, v'.HasBlock b ∧ v'.owner? b = none)
    (hholds : ∀ b ∈ k.children, ¬ v.HasBlock b ∨ b ∈ v.children s) :
    v.Keeps s (v'.createStmt k ty) := by
  -- Handles are given out in order, so none that is there is the new one.
  have hold : ∀ t, v'.HasStmt t → t ≠ ⟨v'.stmtCount⟩ := by
    rintro t ht rfl
    exact Nat.lt_irrefl _ ht
  refine { h with hasStmt := ?_, kind := ?_, owner := ?_, owner_new := ?_ }
  · intro t ht
    exact Nat.lt_succ_of_lt (h.hasStmt t ht)
  · intro t ht
    have hne := hold t (h.hasStmt t ht)
    simpa [View.createStmt, hne] using h.kind t ht
  · intro b hb hbs
    have hnot : b ∉ k.children := fun hmem => (hholds b hmem).elim (fun hn => hn hb) hbs
    simpa [View.createStmt, hnot] using h.owner b hb hbs
  · intro t ht b hb
    by_cases htn : t = ⟨v'.stmtCount⟩
    · have hmem : b ∈ k.children := by simpa [View.children, View.createStmt, htn] using hb
      simp [View.createStmt, hmem, htn]
    · have hb' : b ∈ v'.children t := by simpa [View.children, View.createStmt, htn] using hb
      have howner := h.owner_new t ht b hb'
      -- What a new statement holds already has an owner, so it is not free for another one.
      have hnot : b ∉ k.children := by
        intro hmem
        rw [(hfree b hmem).2] at howner
        cases howner
      simpa [View.createStmt, hnot] using howner

theorem insert (h : v.Keeps s v') {b : BlockId} {i : Nat} {n : StmtId} (hn : ¬ v.HasStmt n)
    (hp : v.parent? s = some b) (hi : i ≤ (v'.listed b).length) : v.Keeps s (v'.insert b i n) := by
  have hold : ∀ t, v.HasStmt t → t ≠ n := by
    rintro t ht rfl
    exact hn ht
  refine { h with parent := ?_, listed := ?_, parent_new := ?_ }
  · intro t ht
    simpa [View.insert, hold t ht] using h.parent t ht
  · intro c t ht
    rw [Linked.mem_listed_insert hi, ← h.listed c t ht]
    simp [hold t ht]
  · intro t c ht htc
    by_cases htn : t = n
    · have hcb : b = c := by simpa [View.insert, htn] using htc
      rw [← hcb]
      exact hp
    · exact h.parent_new t c ht (by simpa [View.insert, htn] using htc)

theorem release (h : v.Keeps s v') (hs : v.HasStmt s) {b : BlockId} (hb : b ∈ v.children s)
    (howner : ∀ o, v'.owner? b = some o → o = s) : v.Keeps s (v'.release b) := by
  refine { h with owner := ?_, owner_new := ?_ }
  · intro c hc hcs
    have hne : c ≠ b := by
      rintro rfl
      exact hcs hb
    simpa [View.release, hne] using h.owner c hc hcs
  · intro t ht c hc
    have hown := h.owner_new t ht c hc
    -- What was released was owned by the match, if at all.
    have hne : c ≠ b := by
      rintro rfl
      exact ht (howner t hown ▸ hs)
    simpa [View.release, hne] using hown

end Keeps

end View

/-! ## Drafts keep what was there -/

namespace Arena.Drafts

variable {a a' : Arena} {s : StmtId}

theorem arises (h : a.Drafts s a') (ha : a.Arises) : a'.Arises := by
  induction h with
  | start => exact ha
  | edit _ _ happly ih => exact ih.apply happly

theorem keeps (h : a.Drafts s a') (ha : a.Arises) (hs : a.view.HasStmt s) :
    a.view.Keeps s a'.view := by
  induction h with
  | start => exact .refl ha.indexed ha.linked s
  | @edit now next e answer _ hdraft happly ih =>
      cases e with
      | createBlock =>
          rw [(Edit.apply_createBlock_eq_ok.1 happly).2, Arena.view_createBlock]
          exact ih.createBlock
      | createStmt k ty =>
          rcases Edit.apply_createStmt_eq_ok.1 happly with ⟨n, hcreate, _⟩
          rcases Arena.of_createStmt hcreate with ⟨_, _, _, hfree, hview⟩
          exact hview ▸ ih.createStmt ty hfree hdraft
      | insertBefore b before n =>
          rcases hdraft with ⟨hp, rfl, hn⟩
          rcases Arena.of_insertBefore (Edit.apply_insertBefore_eq_ok.1 happly).2 with
            ⟨_, _, _, hview⟩
          exact hview ▸ ih.insert hn hp List.idxOf_le_length
      | detachBlock b =>
          rcases Edit.apply_detachBlock_eq_ok.1 happly with ⟨former, hdetach, _⟩
          rcases Arena.of_detachBlock hdetach with ⟨_, _, hview⟩
          exact hview ▸ ih.release hs hdraft.1 hdraft.2
      | push b n => cases hdraft
      | remove b n => cases hdraft
      | erase n => cases hdraft
      | redirect old new => cases hdraft
      | replace old new => cases hdraft

end Arena.Drafts

end KernelIR
