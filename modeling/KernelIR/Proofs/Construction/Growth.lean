import KernelIR.Proofs.Arena.Links

/-!
# Growing

Construction adds to an arena and changes nothing in it but the ends of the blocks that are being
filled. `Grows` says so of a view, and that the descent through what was added to these blocks meets
the new statements in the order of their handles. One step `Opens` new blocks, empty ones, below a
new statement; when they have been filled, the step and the filling are one growth of the block
where the statement was put.
-/

namespace KernelIR

/-! ## Handles in a row -/

/-- `n` handles in a row. -/
def handles (start n : Nat) : List StmtId :=
  (List.range' start n).map StmtId.mk

theorem mem_handles {start n : Nat} {s : StmtId} :
    s ∈ handles start n ↔ start ≤ s.index ∧ s.index < start + n := by
  rcases s with ⟨i⟩
  simp [handles]

theorem nodup_handles (start n : Nat) : (handles start n).Nodup := by
  refine List.Nodup.map ?_ List.nodup_range'
  intro i j hij
  exact StmtId.mk.inj hij

theorem getElem?_handles {n i : Nat} (hi : i < n) : (handles 0 n)[i]? = some ⟨i⟩ := by
  simp [handles, hi]

theorem handles_append (start m n : Nat) :
    handles start m ++ handles (start + m) n = handles start (m + n) := by
  rw [handles, handles, handles, ← List.map_append, List.range'_append_1]

theorem handles_succ (start n : Nat) :
    ⟨start⟩ :: handles (start + 1) n = handles start (1 + n) := by
  rw [handles, handles, Nat.add_comm 1 n, List.range'_succ]
  rfl

namespace View

/-! ## The next blocks -/

/-- The view with `n` more blocks. -/
def addBlocks (v : View) (n : Nat) : View :=
  { v with blockCount := v.blockCount + n }

/-- The next `n` blocks. -/
def nextBlocks (v : View) (n : Nat) : List BlockId :=
  (List.range' v.blockCount n).map BlockId.mk

theorem mem_nextBlocks {v : View} {n : Nat} {b : BlockId} :
    b ∈ v.nextBlocks n ↔ ¬ v.HasBlock b ∧ (v.addBlocks n).HasBlock b := by
  rcases b with ⟨i⟩
  simp [nextBlocks, HasBlock, addBlocks]

theorem nodup_nextBlocks (v : View) (n : Nat) : (v.nextBlocks n).Nodup := by
  refine List.Nodup.map ?_ List.nodup_range'
  intro i j hij
  exact BlockId.mk.inj hij

/-! ## Order -/

/-- Nothing is erased, every block that a statement names is its own, and statements read earlier
ones. -/
structure Orderly (v : View) : Prop where
  live : ∀ s, v.erased s = false
  owns : ∀ s, ∀ b ∈ v.children s, v.owner? b = some s
  reads : ∀ s, ∀ t ∈ v.operands s, t.index < s.index

namespace Orderly

variable {v : View}

theorem createStmt (h : v.Orderly) {k : Kind} (ty : ScalarType)
    (hreads : ∀ t ∈ k.operands, v.HasStmt t) (hfree : ∀ b ∈ k.children, v.owner? b = none) :
    (v.createStmt k ty).Orderly := by
  refine ⟨h.live, fun s b hb => ?_, fun s t ht => ?_⟩
  · by_cases hs : s = ⟨v.stmtCount⟩
    · subst hs
      have hk : b ∈ k.children := by simpa [children, View.createStmt] using hb
      simp [View.createStmt, hk]
    · have howner := h.owns s b (by simpa [children, View.createStmt, hs] using hb)
      -- `b` has an owner, so the new statement does not name it.
      have hk : b ∉ k.children := by
        intro hk
        rw [hfree b hk] at howner
        cases howner
      simpa [View.createStmt, hk] using howner
  · by_cases hs : s = ⟨v.stmtCount⟩
    · subst hs
      exact hreads t (by simpa [operands, View.createStmt] using ht)
    · exact h.reads s t (by simpa [operands, View.createStmt, hs] using ht)

end Orderly

/-! ## Growth -/

/-- `v'` is `v` with more statements and blocks; of the blocks that were there, only those in `bs`
list something else. -/
structure Extends (bs : List BlockId) (v v' : View) : Prop where
  stmtCount_le : v.stmtCount ≤ v'.stmtCount
  blockCount_le : v.blockCount ≤ v'.blockCount
  kind? : ∀ s, v.HasStmt s → v'.kind? s = v.kind? s
  listed : ∀ c, v.HasBlock c → c ∉ bs → v'.listed c = v.listed c
  /-- New statements hold new blocks. -/
  fresh : ∀ s, ¬ v.HasStmt s → ∀ c ∈ v'.children s, ¬ v.HasBlock c

/-- `v'` is `v` with `size` new statements, below what was put at the ends of the blocks `bs`. -/
structure Grows (bs : List BlockId) (size : Nat) (v v' : View) : Prop extends Extends bs v v' where
  stmtCount : v'.stmtCount = v.stmtCount + size
  appended : ∃ added : BlockId → List StmtId,
    (∀ c ∈ bs, v'.listed c = v.listed c ++ added c) ∧
      v'.Meets (bs.flatMap added) (handles v.stmtCount size)

/-- `v'` is `v` with one more statement, at the end of `b`, and with new blocks `bodies` in it that
list nothing. -/
structure Opens (b : BlockId) (bodies : List BlockId) (v v' : View) : Prop
    extends Extends [b] v v' where
  stmtCount : v'.stmtCount = v.stmtCount + 1
  children : v'.children ⟨v.stmtCount⟩ = bodies
  listed_self : v'.listed b = v.listed b ++ [⟨v.stmtCount⟩]
  bodies : ∀ c ∈ bodies, ¬ v.HasBlock c ∧ v'.HasBlock c ∧ v'.listed c = []

variable {bs cs : List BlockId} {b : BlockId} {m n : Nat} {v v₁ v₂ : View} {xs ss : List StmtId}

namespace Extends

theorem hasStmt (h : Extends bs v v₁) {s : StmtId} (hs : v.HasStmt s) : v₁.HasStmt s :=
  Nat.lt_of_lt_of_le hs h.stmtCount_le

theorem hasBlock (h : Extends bs v v₁) {c : BlockId} (hc : v.HasBlock c) : v₁.HasBlock c :=
  Nat.lt_of_lt_of_le hc h.blockCount_le

theorem children_eq (h : Extends bs v v₁) {s : StmtId} (hs : v.HasStmt s) :
    v₁.children s = v.children s := by
  rw [View.children, h.kind? s hs, View.children]

theorem mono (h : Extends bs v v₁) (hsub : bs ⊆ cs) : Extends cs v v₁ :=
  { h with listed := fun c hc hnot => h.listed c hc fun hmem => hnot (hsub hmem) }

theorem trans (h : Extends bs v v₁) (h' : Extends cs v₁ v₂)
    (hcs : ∀ c ∈ cs, v.HasBlock c → c ∈ bs) : Extends bs v v₂ := by
  refine ⟨h.stmtCount_le.trans h'.stmtCount_le, h.blockCount_le.trans h'.blockCount_le, ?_, ?_, ?_⟩
  · intro s hs
    rw [h'.kind? s (h.hasStmt hs), h.kind? s hs]
  · intro c hc hnot
    rw [h'.listed c (h.hasBlock hc) fun hmem => hnot (hcs c hmem hc), h.listed c hc hnot]
  · intro s hs c hc hold
    -- A statement that is new in the end was new at the first growth or at the second.
    by_cases hs₁ : v₁.HasStmt s
    · exact h.fresh s hs c (h'.children_eq hs₁ ▸ hc) hold
    · exact h'.fresh s hs₁ c hc (h.hasBlock hold)

/-- A descent that does not come to the blocks that grow stays as it is. -/
theorem meets (h : Extends bs v v₁) (hmeets : v.Meets xs ss)
    (hapart : ∀ s ∈ ss, ∀ c ∈ v.children s, c ∉ bs) : v₁.Meets xs ss := by
  refine Visits.congr hmeets (fun s hs => ?_) fun s hs => ?_
  · rcases hmeets.enter_of_mem hs with ⟨hissued, hblocks⟩
    refine ⟨h.hasStmt hissued, fun c hc => h.hasBlock (hblocks c ?_)⟩
    rwa [← h.children_eq hissued]
  · rcases hmeets.enter_of_mem hs with ⟨hissued, hblocks⟩
    rw [below, h.children_eq hissued, below]
    exact List.flatMap_congr fun c hc => h.listed c (hblocks c hc) (hapart s hs c hc)

/-- What was met among new statements stays met when blocks grow that were there before. -/
theorem meets_handles (h : Extends bs v v₁) (h' : Extends cs v₁ v₂)
    (hcs : ∀ c ∈ cs, v.HasBlock c) (hmeets : v₁.Meets xs (handles v.stmtCount n)) :
    v₂.Meets xs (handles v.stmtCount n) := by
  refine h'.meets hmeets fun s hs c hc hmem => ?_
  exact h.fresh s (Nat.not_lt.2 (mem_handles.1 hs).1) c hc (hcs c hmem)

end Extends

namespace Grows

theorem refl (h : v.Indexed) (bs : List BlockId) : Grows bs 0 v v := by
  have hfresh : ∀ s, ¬ v.HasStmt s → ∀ c ∈ v.children s, ¬ v.HasBlock c := by
    intro s hs c hc
    rw [h.children_of_not_hasStmt hs] at hc
    cases hc
  refine ⟨⟨Nat.le_refl _, Nat.le_refl _, fun _ _ => rfl, fun _ _ _ => rfl, hfresh⟩, rfl,
    fun _ => [], fun _ _ => (List.append_nil _).symm, ?_⟩
  rw [List.flatMap_eq_nil_iff.2 fun _ _ => rfl]
  exact .nil

/-- One after the other, in the same block. -/
theorem trans (h : Grows [b] m v v₁) (h' : Grows [b] n v₁ v₂) (hb : v.HasBlock b) :
    Grows [b] (m + n) v v₂ := by
  rcases h.appended with ⟨first, hfirst, hmeets⟩
  rcases h'.appended with ⟨second, hsecond, hmeets'⟩
  have hextends := h.toExtends.trans h'.toExtends fun c hc _ => hc
  refine ⟨hextends, ?_, fun c => first c ++ second c, fun c hc => ?_, ?_⟩
  · rw [h'.stmtCount, h.stmtCount, Nat.add_assoc]
  · rw [hsecond c hc, hfirst c hc, List.append_assoc]
  · have hkept := h.meets_handles h'.toExtends (by simpa using hb) hmeets
    rw [h.stmtCount] at hmeets'
    rw [List.flatMap_singleton] at hkept hmeets' ⊢
    rw [← handles_append]
    exact hkept.append hmeets'

/-- One after the other, in different blocks. -/
theorem cons (h : Grows [b] m v v₁) (h' : Grows bs n v₁ v₂) (hb : b ∉ bs)
    (hbs : ∀ c ∈ b :: bs, v.HasBlock c) : Grows (b :: bs) (m + n) v v₂ := by
  rcases h.appended with ⟨first, hfirst, hmeets⟩
  rcases h'.appended with ⟨second, hsecond, hmeets'⟩
  rcases List.forall_mem_cons.1 hbs with ⟨hissued, hrest⟩
  have hextends := (h.toExtends.mono (List.cons_subset_cons b (List.nil_subset bs))).trans
    h'.toExtends fun c hc _ => List.mem_cons_of_mem b hc
  have hne : ∀ c ∈ bs, c ≠ b := fun c hc hcb => hb (hcb ▸ hc)
  refine ⟨hextends, ?_, Function.update second b (first b), fun c hc => ?_, ?_⟩
  · rw [h'.stmtCount, h.stmtCount, Nat.add_assoc]
  · rcases List.mem_cons.1 hc with rfl | hc
    · rw [h'.listed c (h.hasBlock hissued) hb, hfirst c List.mem_cons_self, Function.update_self]
    · rw [hsecond c hc, h.listed c (hrest c hc) (by simpa using hne c hc),
        Function.update_of_ne (hne c hc)]
  · -- The second filling comes to none of the blocks that the first one created.
    have hkept := h.meets_handles h'.toExtends hrest hmeets
    have hsame : bs.flatMap (Function.update second b (first b)) = bs.flatMap second :=
      List.flatMap_congr fun c hc => Function.update_of_ne (hne c hc) _ _
    rw [h.stmtCount] at hmeets'
    rw [List.flatMap_singleton] at hkept
    rw [← handles_append, List.flatMap_cons, hsame, Function.update_self]
    exact hkept.append hmeets'

end Grows

/-- A new statement at the end of a block, with the next blocks in it. -/
theorem opens_insert (hindexed : v.Indexed) (hlinked : v.Linked) (hb : v.HasBlock b) {k : Kind}
    (ty : ScalarType) (hk : k.children = v.nextBlocks n) :
    v.Opens b (v.nextBlocks n)
      (((v.addBlocks n).createStmt k ty).insert b (v.listed b).length ⟨v.stmtCount⟩) := by
  have hchildren : ∀ s, (((v.addBlocks n).createStmt k ty).insert b (v.listed b).length
      ⟨v.stmtCount⟩).children s = if s = ⟨v.stmtCount⟩ then v.nextBlocks n else v.children s := by
    intro s
    by_cases hs : s = ⟨v.stmtCount⟩ <;>
      simp [View.children, View.insert, View.createStmt, addBlocks, hs, hk]
  refine ⟨⟨Nat.le_succ _, Nat.le_add_right _ n, ?_, ?_, ?_⟩, rfl, ?_, ?_, ?_⟩
  · intro s hs
    refine Function.update_of_ne ?_ _ _
    rintro rfl
    exact Nat.lt_irrefl _ hs
  · intro c _ hc
    exact Function.update_of_ne (by simpa using hc) _ _
  · intro s hs c hc
    rw [hchildren] at hc
    split at hc
    · exact (mem_nextBlocks.1 hc).1
    · rw [hindexed.children_of_not_hasStmt hs] at hc
      cases hc
  · rw [hchildren, if_pos rfl]
  · exact (Function.update_self ..).trans (List.insertIdx_length_self ..)
  · intro c hc
    have hnew := mem_nextBlocks.1 hc
    have hcb : c ≠ b := by
      rintro rfl
      exact hnew.1 hb
    refine ⟨hnew.1, hnew.2, ?_⟩
    -- A block that was not created lists nothing.
    have hnone : v.listed c = [] :=
      List.eq_nil_iff_forall_not_mem.2 fun s hs => hnew.1 (hlinked.issued_of_listed c s hs).2
    exact (Function.update_of_ne hcb _ _).trans hnone

/-- A statement with new blocks, and the filling of these blocks. -/
theorem Opens.grows (h : Opens b bs v v₁) (h' : Grows bs n v₁ v₂) (hb : v.HasBlock b) :
    Grows [b] (1 + n) v v₂ := by
  rcases h'.appended with ⟨added, hadded, hmeets⟩
  have hextends := h.toExtends.trans h'.toExtends fun c hc hold => absurd hold (h.bodies c hc).1
  refine ⟨hextends, ?_, fun _ => [⟨v.stmtCount⟩], fun c hc => ?_, ?_⟩
  · rw [h'.stmtCount, h.stmtCount, Nat.add_assoc]
  · have hnot : c ∉ bs := fun hmem => (h.bodies c hmem).1 (List.mem_singleton.1 hc ▸ hb)
    rw [h'.listed c (h.hasBlock (List.mem_singleton.1 hc ▸ hb)) hnot, List.mem_singleton.1 hc,
      h.listed_self]
  · -- Below the statement is what its blocks were filled with, since they listed nothing before.
    have hnew : v₁.HasStmt ⟨v.stmtCount⟩ := by
      rw [HasStmt, h.stmtCount]
      exact Nat.lt_succ_self v.stmtCount
    have hchildren : v₂.children ⟨v.stmtCount⟩ = bs := by
      rw [h'.children_eq hnew, h.children]
    have hbelow : v₂.below ⟨v.stmtCount⟩ = bs.flatMap added := by
      rw [below, hchildren]
      refine List.flatMap_congr fun c hc => ?_
      rw [hadded c hc, (h.bodies c hc).2.2, List.nil_append]
    have hresolves : v₂.Resolves ⟨v.stmtCount⟩ := by
      refine ⟨h'.hasStmt hnew, fun c hc => h'.hasBlock (h.bodies c ?_).2.1⟩
      rwa [← hchildren]
    rw [← handles_succ, List.flatMap_singleton]
    refine Visits.singleton_iff.2 ⟨hresolves, handles (v.stmtCount + 1) n, ?_, rfl⟩
    rwa [hbelow, ← h.stmtCount]

end View

end KernelIR
