import KernelIR.Proofs.Arena.Usage

/-!
# The effects of the operations

Each operation of an arena, when it does not fault, makes one step of the view. Creating, placing,
taking out and releasing do so in every arena. Redirecting and erasing rely on the index of uses:
with an exact index redirecting never faults, and erasing faults exactly if the statement is
attached, if the descent through what it owns has no end, or if something outside reads what it
owns.
-/

namespace KernelIR

open View (turn)

theorem idxOf?_of_mem {α : Type} [DecidableEq α] {x : α} {xs : List α} (h : x ∈ xs) :
    xs.idxOf? x = some (xs.idxOf x) := by
  induction xs with
  | nil => cases h
  | cons y ys ih =>
      by_cases hy : y = x
      · simp [List.idxOf?_cons, hy]
      · have hx : x ∈ ys := by simpa [Ne.symm hy] using h
        have hbeq : (y == x) = false := by simpa using hy
        simp [List.idxOf?_cons, List.idxOf_cons, hbeq, ih hx]

theorem idxOf?_of_getElem? {α : Type} [DecidableEq α] {x : α} {xs : List α} {i : Nat}
    (hnodup : xs.Nodup) (h : xs[i]? = some x) : xs.idxOf? x = some i := by
  rcases List.getElem?_eq_some_iff.1 h with ⟨hi, rfl⟩
  rw [idxOf?_of_mem (List.getElem_mem hi), hnodup.idxOf_getElem i hi]

namespace View

/-- Every block of `bs` has the owner `s`. -/
def claim (v : View) (s : StmtId) (bs : List BlockId) : View :=
  { v with owner? := fun b => if b ∈ bs then some s else v.owner? b }

/-- Each reading of `rs` is recorded, in order. -/
def record (v : View) (rs : List (StmtId × Use)) : View :=
  { v with uses := fun t => v.uses t ++ (rs.filter fun r => r.1 = t).map Prod.snd }

/-- The slots of `us` hold `new`, and `new` is used by them. -/
def turnUses (v : View) (new : StmtId) (us : List Use) : View :=
  { v with
    kind? := fun t =>
      (v.kind? t).map (Kind.mapSlots fun i x => if (⟨t, i⟩ : Use) ∈ us then new else x)
    uses := Function.update v.uses new (v.uses new ++ us) }

/-- One slot holds `new`, in a statement of kind `k`. -/
def turnUse (v : View) (new : StmtId) (u : Use) (k : Kind) : View :=
  (v.setKind u.user (k.mapSlots fun i x => if i = u.slot then new else x)).setUses new
    (v.uses new ++ [u])

variable {v : View} {new : StmtId} {u w : Use} {us : List Use} {k : Kind}

theorem turnUses_nil : v.turnUses new [] = v := by
  ext1 <;> try rfl
  case kind? =>
    funext t
    cases hk : v.kind? t <;> simp [turnUses, hk]
  case uses => simp [turnUses]

theorem turnUses_cons (hk : v.kind? u.user = some k) :
    (v.turnUse new u k).turnUses new us = v.turnUses new (u :: us) := by
  ext1 <;> try rfl
  case kind? =>
    funext t
    by_cases ht : t = u.user
    · subst ht
      simp only [turnUses, turnUse, setUses, setKind, Function.update_self, Option.map_some, hk,
        Kind.mapSlots_mapSlots]
      refine congrArg some (Kind.mapSlots_congr fun i x _ => ?_)
      by_cases hi : i = u.slot
      · simp [hi]
      · have hne : (⟨u.user, i⟩ : Use) ≠ u := fun heq => hi (congrArg Use.slot heq)
        simp [hi, hne]
    · have hne : ∀ i, (⟨t, i⟩ : Use) ≠ u := fun i heq => ht (congrArg Use.user heq)
      simp [turnUses, turnUse, setUses, setKind, Function.update_of_ne ht, hne]
  case uses =>
    funext t
    by_cases ht : t = new <;> simp [turnUses, turnUse, setUses, setKind, ht]

/-- Every other slot holds what it held. -/
theorem slot_turnUse (hk : v.kind? u.user = some k) (hne : w ≠ u) :
    ((v.turnUse new u k).operands w.user)[w.slot]? = (v.operands w.user)[w.slot]? := by
  by_cases huser : w.user = u.user
  · have hslot : w.slot ≠ u.slot := by
      intro hslot
      rcases u with ⟨user, slot⟩
      rcases w with ⟨user', slot'⟩
      cases huser
      cases hslot
      exact hne rfl
    rw [huser, operands_of_kind hk]
    simp [operands, turnUse, setUses, setKind, hslot]
  · simp [operands, turnUse, setUses, setKind, huser]

end View

namespace Arena

variable {a a' : Arena} {s t : StmtId} {b : BlockId}

/-! ## Placing -/

theorem requirePlaceable_eq_ok {p : Placement} :
    a.requirePlaceable p s = .ok () ↔ a.view.Placeable s := by
  rw [requirePlaceable, isErased_eq]
  cases hlive : a.view.erased s with
  | true =>
      simp only [if_true, throw_bind]
      exact ⟨fun h => (nomatch h), fun h => absurd h.live (by simp [hlive])⟩
  | false =>
      simp only [Bool.false_eq_true, if_false, bind_eq_ok, parent_eq_ok]
      constructor
      · rintro ⟨p, ⟨hstmt, hparent⟩, h⟩
        cases p with
        | none => exact ⟨hstmt, hlive, hparent⟩
        | some c => cases h
      · rintro ⟨hstmt, _, hparent⟩
        exact ⟨none, ⟨hstmt, hparent⟩, rfl⟩

/-- Listing `ss` in `b` and making `b` the parent of `s`. -/
theorem view_attach (hb : a.view.HasBlock b) (hs : a.view.HasStmt s) (ss : List StmtId) :
    ((a.setListing b ss).setParent s (some b)).view =
      (a.view.setListing b ss).setParent s (some b) := by
  have hlist := view_setListing hb ss
  have hs' : (a.setListing b ss).view.HasStmt s := by rwa [hlist]
  rw [view_setParent hs', hlist]

theorem of_push (h : a.push b s = .ok a') :
    a.view.Placeable s ∧ a.view.HasBlock b ∧
      a'.view = a.view.insert b (a.view.listed b).length s := by
  simp only [push, bind_eq_ok, listing_eq_ok, pure_eq_ok] at h
  rcases h with ⟨_, hplace, _, ⟨hb, rfl⟩, rfl⟩
  have hs := requirePlaceable_eq_ok.1 hplace
  refine ⟨hs, hb, ?_⟩
  rw [view_attach hb hs.hasStmt, View.insert, List.insertIdx_length_self]
  rfl

/-- What can be placed can be put at the end of any block. -/
theorem exists_push (hs : a.view.Placeable s) (hb : a.view.HasBlock b) :
    ∃ a', a.push b s = .ok a' := by
  have hplace : a.requirePlaceable .push s = .ok () := requirePlaceable_eq_ok.2 hs
  have hlisting : a.listing b = .ok (a.view.listed b) := listing_eq_ok.2 ⟨hb, rfl⟩
  exact ⟨_, by rw [push, hplace, ok_bind, hlisting, ok_bind]; rfl⟩

theorem of_insertBefore {before : StmtId} (h : a.insertBefore b before s = .ok a') :
    a.view.Placeable s ∧ a.view.HasBlock b ∧ before ∈ a.view.listed b ∧
      a'.view = a.view.insert b ((a.view.listed b).idxOf before) s := by
  simp only [insertBefore, bind_eq_ok, listing_eq_ok] at h
  rcases h with ⟨_, hplace, _, ⟨hb, rfl⟩, h⟩
  have hs := requirePlaceable_eq_ok.1 hplace
  by_cases hmem : before ∈ a.view.listed b
  · rw [idxOf?_of_mem hmem] at h
    cases h
    exact ⟨hs, hb, hmem, view_attach hb hs.hasStmt _⟩
  · rw [List.idxOf?_eq_none_iff.2 hmem] at h
    cases h

theorem of_remove (h : a.remove b s = .ok a') :
    a.view.HasBlock b ∧ a.view.HasStmt s ∧ a'.view = a.view.remove b s := by
  simp only [remove, bind_eq_ok, listing_eq_ok] at h
  rcases h with ⟨_, ⟨hb, rfl⟩, p, hparent, h⟩
  have hlist := view_setListing hb ((a.view.listed b).filter (· ≠ s))
  rcases parent_eq_ok.1 hparent with ⟨hs, hp⟩
  have hs' : a.view.HasStmt s := by rwa [hlist] at hs
  have hp' : a.view.parent? s = p := by rwa [hlist] at hp
  refine ⟨hb, hs', ?_⟩
  by_cases hpb : p = some b
  · rw [if_pos hpb, pure_eq_ok] at h
    rw [← h, view_setParent hs, hlist, View.remove, if_pos (hp'.trans hpb)]
    rfl
  · rw [if_neg hpb, pure_eq_ok] at h
    rw [← h, hlist, View.remove, if_neg (hp' ▸ hpb)]
    rfl

theorem of_detachBlock {former : Option StmtId} (h : a.detachBlock b = .ok (former, a')) :
    a.view.HasBlock b ∧ a.view.owner? b = former ∧ a'.view = a.view.release b := by
  simp only [detachBlock, bind_eq_ok, owner_eq_ok, pure_eq_ok, Prod.mk.injEq] at h
  rcases h with ⟨_, ⟨hb, rfl⟩, rfl, rfl⟩
  exact ⟨hb, rfl, view_setOwner hb none⟩

/-! ## Creating -/

theorem foldlM_claimBlock {bs : List BlockId} (h : bs.foldlM (claimBlock s) a = .ok a') :
    bs.Nodup ∧ (∀ b ∈ bs, a.view.HasBlock b ∧ a.view.owner? b = none) ∧
      a'.view = a.view.claim s bs := by
  induction bs generalizing a with
  | nil =>
      cases h
      simp [View.claim]
  | cons b bs ih =>
      simp only [List.foldlM_cons, claimBlock, bind_eq_ok, owner_eq_ok] at h
      rcases h with ⟨a₁, ⟨o, ⟨hb, ho⟩, hclaim⟩, hrest⟩
      cases o with
      | some o => cases hclaim
      | none =>
          cases hclaim
          rcases ih hrest with ⟨hnodup, hfree, hview⟩
          rw [view_setOwner hb] at hfree hview
          -- Once claimed, `b` has an owner, so it cannot be claimed again.
          have hnot : b ∉ bs := fun hmem => by simpa [View.setOwner] using (hfree b hmem).2
          refine ⟨List.nodup_cons.2 ⟨hnot, hnodup⟩, ?_, ?_⟩
          · intro c hc
            rcases List.mem_cons.1 hc with rfl | hc
            · exact ⟨hb, ho⟩
            · have hne : c ≠ b := fun hcb => hnot (hcb ▸ hc)
              have hcfree := hfree c hc
              exact ⟨hcfree.1, by simpa [View.setOwner, hne] using hcfree.2⟩
          · rw [hview]
            ext1 <;> try rfl
            funext c
            by_cases hc : c ∈ bs
            · simp [View.claim, hc]
            · by_cases hcb : c = b <;> simp [View.claim, View.setOwner, hc, hcb, hnot]

/-- Different blocks without an owner can all be claimed. -/
theorem exists_foldlM_claimBlock {bs : List BlockId} (hnodup : bs.Nodup)
    (hfree : ∀ b ∈ bs, a.view.HasBlock b ∧ a.view.owner? b = none) :
    ∃ a', bs.foldlM (claimBlock s) a = .ok a' := by
  induction bs generalizing a with
  | nil => exact ⟨a, rfl⟩
  | cons b bs ih =>
      rcases List.nodup_cons.1 hnodup with ⟨hb, hbs⟩
      rcases List.forall_mem_cons.1 hfree with ⟨hhere, hrest⟩
      have hclaim : claimBlock s a b = .ok (a.setOwner b (some s)) := by
        rw [claimBlock, owner_eq_ok.2 hhere]
        rfl
      have hleft : ∀ c ∈ bs, (a.setOwner b (some s)).view.HasBlock c ∧
          (a.setOwner b (some s)).view.owner? c = none := by
        intro c hc
        have hne : c ≠ b := fun hcb => hb (hcb ▸ hc)
        rw [view_setOwner hhere.1]
        exact ⟨(hrest c hc).1, by simpa [View.setOwner, hne] using (hrest c hc).2⟩
      rcases ih hbs hleft with ⟨a', hfold⟩
      exact ⟨a', by rw [List.foldlM_cons, hclaim, ok_bind, hfold]⟩

theorem view_foldl_addUse (rs : List (StmtId × Use)) (a : Arena) :
    (rs.foldl (fun a (operand, u) => a.addUse operand u) a).view = a.view.record rs := by
  induction rs generalizing a with
  | nil => simp [View.record]
  | cons r rs ih =>
      rcases r with ⟨operand, u⟩
      have hview : (a.addUse operand u).view =
          a.view.setUses operand (a.view.uses operand ++ [u]) :=
        view_setUses a operand _
      rw [List.foldl_cons, ih, hview]
      ext1 <;> try rfl
      funext t
      by_cases ht : t = operand
      · simp [View.record, View.setUses, ht]
      · simp [View.record, View.setUses, ht, Ne.symm ht]

theorem of_createStmt {k : Kind} {ty : ScalarType} (h : a.createStmt k ty = .ok (s, a')) :
    s = ⟨a.view.stmtCount⟩ ∧ (∀ t ∈ k.operands, a.view.erased t = false) ∧ k.children.Nodup ∧
      (∀ b ∈ k.children, a.view.HasBlock b ∧ a.view.owner? b = none) ∧
        a'.view = a.view.createStmt k ty := by
  simp only [createStmt] at h
  cases hfind : k.operands.find? a.isErased with
  | some operand =>
      rw [hfind] at h
      cases h
  | none =>
      rw [hfind] at h
      simp only [bind_eq_ok, pure_eq_ok, Prod.mk.injEq] at h
      rcases h with ⟨a₁, hclaim, rfl, rfl⟩
      have hlive : ∀ t ∈ k.operands, a.view.erased t = false := by
        intro t ht
        have hnot := List.find?_eq_none.1 hfind t ht
        exact Bool.not_eq_true _ ▸ hnot
      have hadd : (⟨a.stmts.push ⟨k, ty, none⟩, a.blocks, a.uses, a.erased⟩ : Arena) =
          a.addStmt k ty := rfl
      rw [hadd] at hclaim
      rcases foldlM_claimBlock hclaim with ⟨hnodup, hfree, hview⟩
      rw [view_addStmt] at hfree hview
      refine ⟨rfl, hlive, hnodup, hfree, ?_⟩
      rw [recordUses, view_foldl_addUse, hview]
      rfl

/-- A statement can be created if it reads nothing erased and names different blocks without an
owner. -/
theorem exists_createStmt {k : Kind} (ty : ScalarType)
    (hlive : ∀ t ∈ k.operands, a.view.erased t = false) (hnodup : k.children.Nodup)
    (hfree : ∀ b ∈ k.children, a.view.HasBlock b ∧ a.view.owner? b = none) :
    ∃ a', a.createStmt k ty = .ok (⟨a.view.stmtCount⟩, a') := by
  have hfind : k.operands.find? a.isErased = none :=
    List.find?_eq_none.2 fun t ht => by simpa [isErased_eq] using hlive t ht
  rcases exists_foldlM_claimBlock (a := a.addStmt k ty) (s := ⟨a.view.stmtCount⟩) hnodup
    (by rwa [view_addStmt]) with ⟨a', hclaim⟩
  refine ⟨a'.recordUses ⟨a.view.stmtCount⟩ k, ?_⟩
  simp only [createStmt, hfind]
  rw [show (⟨a.stmts.push ⟨k, ty, none⟩, a.blocks, a.uses, a.erased⟩ : Arena) = a.addStmt k ty from
    rfl]
  exact bind_eq_ok.2 ⟨a', hclaim, rfl⟩

/-! ## Redirecting -/

/-- One recorded use that is right is turned without a fault. -/
theorem exists_redirectUse {old : StmtId} (new : StmtId) {u : Use} {k : Kind}
    (hk : a.view.kind? u.user = some k) (hold : k.operands[u.slot]? = some old) :
    ∃ a', redirectUse old new a u = .ok a' ∧ a'.view = a.view.turnUse new u k := by
  have hstmt : a.view.HasStmt u.user := exists_kind_iff.1 ⟨k, hk⟩
  refine ⟨(a.setKind u.user (k.mapSlots fun i x => if i = u.slot then new else x)).addUse new u,
    ?_, ?_⟩
  · simp [redirectUse, kind_eq_ok.2 hk, Kind.slot?_eq, hold]
  · rw [View.turnUse, ← view_setKind hstmt, ← view_setUses]
    rfl

theorem foldlM_redirectUse {old : StmtId} (new : StmtId) (us : List Use) (hnodup : us.Nodup)
    (hold : ∀ u ∈ us, (a.view.operands u.user)[u.slot]? = some old) :
    ∃ a', us.foldlM (redirectUse old new) a = .ok a' ∧
      a'.view = a.view.turnUses new us := by
  induction us generalizing a with
  | nil => exact ⟨a, rfl, View.turnUses_nil.symm⟩
  | cons u us ih =>
      rcases List.nodup_cons.1 hnodup with ⟨hu, hus⟩
      have hhere := hold u List.mem_cons_self
      rcases hk : a.view.kind? u.user with _ | k
      · simp [View.operands, hk] at hhere
      · rw [View.operands_of_kind hk] at hhere
        rcases exists_redirectUse new hk hhere with ⟨a₁, hfirst, hview⟩
        -- The uses that are left are of other slots, which still hold `old`.
        have hleft : ∀ w ∈ us, (a₁.view.operands w.user)[w.slot]? = some old := by
          intro w hw
          have hne : w ≠ u := by
            rintro rfl
            exact hu hw
          rw [hview, View.slot_turnUse hk hne]
          exact hold w (List.mem_cons_of_mem u hw)
        rcases ih hus hleft with ⟨a', hfold, hview'⟩
        refine ⟨a', ?_, ?_⟩
        · rw [List.foldlM_cons, hfirst, ok_bind, hfold]
        · rw [hview', hview, View.turnUses_cons hk]

/-- With an exact index, redirecting does not fault and reaches every live reader. -/
theorem exists_redirect (h : a.view.Indexed) {old new : StmtId} (hne : old ≠ new) :
    ∃ a', a.redirect old new = .ok a' ∧ a'.view = a.view.redirect old new := by
  have hread : ∀ u ∈ a.view.uses old,
      a.view.erased u.user = false ∧ (a.view.operands u.user)[u.slot]? = some old := fun u hu =>
    View.reading?_eq_some.1 ((h.mem_uses old u).1 hu)
  have hview := view_setUses a old []
  rcases foldlM_redirectUse (a := a.setUses old []) new (a.view.uses old)
    (h.nodup_uses old) (by rw [hview]; exact fun u hu => (hread u hu).2) with ⟨a', hfold, hview'⟩
  refine ⟨a', ?_, ?_⟩
  · rw [redirect, if_neg hne]
    exact hfold
  · rw [hview', hview]
    ext1 <;> try rfl
    case kind? =>
      funext t
      simp only [View.redirect, View.turnUses, View.setUses]
      rcases hkind : a.view.kind? t with _ | k
      · cases a.view.erased t <;> rfl
      · cases herased : a.view.erased t with
        | true =>
            -- Tombstones are in no list, so they keep what they held.
            have hnone : ∀ i, (⟨t, i⟩ : Use) ∉ a.view.uses old := by
              intro i hmem
              simpa [herased] using (hread _ hmem).1
            simp [hnone]
        | false =>
            simp only [Option.map_some, Bool.false_eq_true, if_false, Option.some.injEq]
            refine Kind.mapSlots_congr fun i x hx => ?_
            have hmem : (⟨t, i⟩ : Use) ∈ a.view.uses old ↔ x = old := by
              rw [h.mem_uses, View.reading?_eq_some, View.operands_of_kind hkind, hx]
              simp [herased]
            simp [turn, hmem]
    case uses =>
      funext t
      simp [View.redirect, View.turnUses, View.setUses, Function.update_of_ne (Ne.symm hne)]

theorem of_redirect (h : a.view.Indexed) {old new : StmtId} (hne : old ≠ new)
    (hredirect : a.redirect old new = .ok a') : a'.view = a.view.redirect old new := by
  rcases exists_redirect h hne with ⟨a₁, hredirect', hview⟩
  rw [hredirect] at hredirect'
  cases hredirect'
  exact hview

end Arena

end KernelIR
