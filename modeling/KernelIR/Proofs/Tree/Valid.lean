import KernelIR.Proofs.Arena.Links
import KernelIR.Proofs.Tree.Ownership
import KernelIR.Proofs.Tree.Usages

/-!
# Valid trees

In an arena that arises the index of uses is exact and the links of nesting agree, so what is left
for the checks of a tree to find is little: the descent has to end, what it meets has to be live and
to own its blocks, and what is read has to be live and in some block. `Valid` says just that.
-/

namespace KernelIR

namespace View

/-- The tree at `root` is in order, and `ss` are its statements. -/
structure Valid (v : View) (root : Node) (ss : List StmtId) : Prop where
  meets : v.MeetsFrom root ss
  live : ∀ s ∈ ss, v.erased s = false
  owns : ∀ s ∈ ss, ∀ b ∈ v.children s, v.owner? b = some s
  reads : ∀ s ∈ ss, ∀ t ∈ v.operands s,
    v.HasStmt t ∧ v.erased t = false ∧ (v.parent? t = none → root = .stmt t)

namespace Valid

variable {v : View} {root : Node} {ss : List StmtId} {s t : StmtId}

theorem below_subset (h : v.Valid root ss) (hs : s ∈ ss) : v.below s ⊆ ss :=
  Visits.below_subset h.meets.2 hs

/-- What is listed below a statement of the tree is below no other one. -/
theorem eq_of_mem_below (h : v.Valid root ss) (hlinked : v.Linked) (hs : s ∈ ss) (ht : t ∈ ss)
    {y : StmtId} (hys : y ∈ v.below s) (hyt : y ∈ v.below t) : s = t := by
  rcases mem_below.1 hys with ⟨b, hb, hyb⟩
  rcases mem_below.1 hyt with ⟨c, hc, hyc⟩
  have howner := h.owns s hs b hb
  rw [hlinked.listed_once b c y hyb hyc, h.owns t ht c hc] at howner
  exact (Option.some.inj howner).symm

/-- Only the statement where a tree starts may be in no block. -/
theorem root_of_detached (h : v.Valid root ss) (hlinked : v.Linked) (hs : s ∈ ss)
    (hp : v.parent? s = none) : root = .stmt s := by
  have hnot : ∀ b, s ∉ v.listed b := by
    intro b hmem
    rw [(hlinked.parent_iff s (h.live s hs) b).2 hmem] at hp
    cases hp
  rcases Visits.mem_cases h.meets.2 hs with htop | ⟨p, _, hbelow⟩
  · cases root with
    | stmt t => rw [List.mem_singleton.1 htop]
    | block b => exact absurd htop (hnot b)
  · rcases mem_below.1 hbelow with ⟨b, _, hmem⟩
    exact absurd hmem (hnot b)

/-- The descent from a root does not come back to where it started. -/
theorem not_mem_tops (h : v.Valid root ss) (hlinked : v.Linked) (hs : s ∈ ss)
    (hts : t ∈ v.below s) : t ∉ v.tops root := by
  intro htop
  -- A block is listed in one place, so all of the start would be below `s`, and `s` below itself.
  have hback : v.tops root ⊆ v.below s := by
    cases root with
    | stmt r =>
        rw [tops, List.mem_singleton] at htop
        exact List.cons_subset.2 ⟨htop ▸ hts, List.nil_subset _⟩
    | block b =>
        rcases mem_below.1 hts with ⟨c, hc, htc⟩
        have hbc := hlinked.listed_once b c t htop htc
        intro y hy
        exact mem_below.2 ⟨c, hc, hbc ▸ hy⟩
  rcases Visits.exists_below h.meets.2 hs with ⟨inner, hinner, _, _⟩
  have hall := h.meets.2.subset_of_roots_subset hinner
    (List.Subset.trans hback hinner.roots_subset)
  exact hinner.not_mem_below (hall hs)

theorem nodup (h : v.Valid root ss) (hlinked : v.Linked) : ss.Nodup := by
  refine Visits.nodup h.meets.2 ?_ ?_ ?_ ?_
  · cases root with
    | stmt s => exact List.nodup_singleton s
    | block b => exact hlinked.nodup_listed b
  · intro p _
    refine List.nodup_flatMap.2 ⟨fun b _ => hlinked.nodup_listed b, ?_⟩
    refine (hlinked.nodup_children p).imp ?_
    intro b c hbc y hyb hyc
    exact hbc (hlinked.listed_once b c y hyb hyc)
  · intro p hp q hq y hyp hyq
    exact h.eq_of_mem_below hlinked hp hq hyp hyq
  · intro p hp y hy
    exact h.not_mem_tops hlinked hp hy

theorem tidy (h : v.Valid root ss) (hlinked : v.Linked) (hs : s ∈ ss) : v.Tidy s := by
  refine ⟨h.live s hs, h.owns s hs, ?_⟩
  intro b hb t ht
  have htree : t ∈ ss := h.below_subset hs (mem_below.2 ⟨b, hb, ht⟩)
  exact (hlinked.parent_iff t (h.live t htree) b).2 ht

end Valid

end View

namespace Arena

variable {a : Arena} {root : Node}

/-- The check of the tree at `root` ends and finds nothing. -/
def Passes (a : Arena) (root : Node) : Prop :=
  ∃ report, a.validate root = .ok report ∧ report.isOk = true

theorem Arises.exists_valid_of_passes (h : a.Arises) (hpasses : a.Passes root) :
    ∃ ss, a.view.Valid root ss := by
  rcases hpasses with ⟨report, hvalidate, hok⟩
  simp only [validate, bind_eq_ok, pure_eq_ok] at hvalidate
  rcases hvalidate with ⟨ownership, hownership, usages, husages, rfl⟩
  rcases of_usageReport h.indexed husages with ⟨ss, hmeets, hissued⟩
  rcases exists_usageReport h.indexed hmeets hissued with
    ⟨stale, detached, hreport, hstale, hdetached⟩
  rw [husages] at hreport
  cases hreport
  simp only [Report.isOk, Bool.and_eq_true, List.isEmpty_iff] at hok
  rcases hok with ⟨⟨⟨rfl, rfl⟩, rfl⟩, _⟩
  rcases ownershipDefects_eq_nil.1 hownership with ⟨ss', hmeets', _, htidy, _⟩
  -- Both checks descend through the same statements.
  have hsame : ss' = ss := hmeets'.2.unique hmeets.2
  subst hsame
  refine ⟨ss', hmeets, fun s hs => (htidy s hs).live, fun s hs => (htidy s hs).owns, ?_⟩
  intro s hs t ht
  have hlive := hstale.1 rfl s hs t ht
  exact ⟨hissued s hs t ht, hlive, hdetached.1 rfl s hs t ht hlive⟩

theorem Arises.passes_of_valid (h : a.Arises) {ss : List StmtId} (hvalid : a.view.Valid root ss) :
    a.Passes root := by
  have hownership : a.ownershipDefects root = .ok [] := by
    refine ownershipDefects_eq_nil.2
      ⟨ss, hvalid.meets, hvalid.nodup h.linked, fun s hs => hvalid.tidy h.linked hs, ?_⟩
    rintro b rfl t ht
    have htree : t ∈ ss := Visits.roots_subset hvalid.meets.2 ht
    exact (h.linked.parent_iff t (hvalid.live t htree) b).2 ht
  rcases exists_usageReport h.indexed hvalid.meets
    (fun s hs t ht => (hvalid.reads s hs t ht).1) with
    ⟨stale, detached, hreport, hstale, hdetached⟩
  have hstaleNil := hstale.2 fun s hs t ht => (hvalid.reads s hs t ht).2.1
  have hdetachedNil := hdetached.2 fun s hs t ht _ => (hvalid.reads s hs t ht).2.2
  -- The index is exact for what is live, and the tree has no tombstone.
  have hunrecorded : a.view.unrecordedIn ss = [] := by
    have hnone : ss.filter a.view.erased = [] :=
      List.filter_eq_nil_iff.2 fun s hs => by simp [hvalid.live s hs]
    rw [View.unrecordedIn, hnone, List.flatMap_nil]
  refine ⟨_, by simp only [validate, hownership, hreport, ok_bind]; rfl, ?_⟩
  simp [Report.isOk, hstaleNil, hdetachedNil, hunrecorded]

/-- The check of a tree passes exactly if the tree is in order. -/
theorem Arises.passes_iff (h : a.Arises) : a.Passes root ↔ ∃ ss, a.view.Valid root ss := by
  constructor
  · exact h.exists_valid_of_passes
  · rintro ⟨ss, hvalid⟩
    exact h.passes_of_valid hvalid

end Arena

end KernelIR
