import KernelIR.Proofs.Tree.Numbering
import Mathlib.Data.List.Forall2
import Mathlib.Data.Set.Function

/-!
# Trees that look alike

A listing shows no handle. Two trees, in one arena or in two, correspond if one statement of the one
can be paired with one of the other so that blocks list what is paired in the same order, and paired
statements differ at most in the handles that their kinds hold: where the one reads a statement of
its tree the other reads the paired one, and where the one reads something outside so does the
other. The listings of such trees are the same text, however the rest of the arenas may differ.
-/

namespace KernelIR

/-! ## Kinds without handles -/

/-- The kind without its handles. How many operands it has is left, and whether it is a branch with
a second body. -/
def Kind.form (k : Kind) : Kind :=
  match k.mapSlots fun _ _ => ⟨0⟩ with
  | .ifElse cond _ elseBody => .ifElse cond ⟨0⟩ (elseBody.map fun _ => ⟨0⟩)
  | .whileLoop _ => .whileLoop ⟨0⟩
  | .rangeFor start stop _ => .rangeFor start stop ⟨0⟩
  | .structFor snode _ => .structFor snode ⟨0⟩
  | k => k

/-- Given the texts of the operands, a kind is written by its form. -/
theorem Kind.textWith_form (k : Kind) (operands : List String) :
    k.form.textWith operands = k.textWith operands := by
  cases k <;> rfl

/-! ## Correspondence -/

/-- The descent from `root` meets `ss` in `v`, and the one from `root'` meets `ts` in `w`. The tree
of the first corresponds to that of the second by `f`. -/
structure View.Corresponds (v w : View) (root root' : Node) (ss ts : List StmtId)
    (f : StmtId → StmtId) : Prop where
  meets : v.MeetsFrom root ss
  meets' : w.MeetsFrom root' ts
  bijective : Set.BijOn f {s | s ∈ ss} {t | t ∈ ts}
  tops : w.tops root' = (v.tops root).map f
  children : ∀ s ∈ ss, List.Forall₂ (fun b c => w.listed c = (v.listed b).map f)
    (v.children s) (w.children (f s))
  operands : ∀ s ∈ ss, List.Forall₂ (fun t u => if t ∈ ss then u = f t else u ∉ ts)
    (v.operands s) (w.operands (f s))
  form : ∀ s ∈ ss, (w.kind? (f s)).map Kind.form = (v.kind? s).map Kind.form
  type? : ∀ s ∈ ss, w.type? (f s) = v.type? s
  erased : ∀ s ∈ ss, w.erased (f s) = v.erased s

/-! ## Lists in step -/

section

variable {α β γ : Type} {xs : List α} {ys : List β}

theorem map_eq_map_of_forall₂ {f : α → γ} {g : β → γ}
    (h : List.Forall₂ (fun x y => g y = f x) xs ys) : ys.map g = xs.map f := by
  induction h with
  | nil => rfl
  | cons hxy _ ih => rw [List.map_cons, List.map_cons, hxy, ih]

theorem mapM_eq_mapM_of_forall₂ {R : α → β → Prop} {f : α → Except Fault γ}
    {g : β → Except Fault γ} (hR : List.Forall₂ R xs ys)
    (h : ∀ x ∈ xs, ∀ y ∈ ys, R x y → g y = f x) : ys.mapM g = xs.mapM f := by
  induction hR with
  | nil => rfl
  | @cons x y xs ys hxy _ ih =>
      have hrest := ih fun x' hx' y' hy' =>
        h x' (List.mem_cons_of_mem x hx') y' (List.mem_cons_of_mem y hy')
      rw [List.mapM_cons, List.mapM_cons, h x List.mem_cons_self y List.mem_cons_self hxy, hrest]

theorem mapM_map_eq_mapM {k : α → β} {f : α → Except Fault γ} {g : β → Except Fault γ}
    (h : ∀ x ∈ xs, g (k x) = f x) : (xs.map k).mapM g = xs.mapM f :=
  mapM_eq_mapM_of_forall₂ (R := fun x y => y = k x)
    (List.forall₂_map_right_iff.2 (List.forall₂_same.2 fun _ _ => rfl))
    fun x hx _ _ hxy => hxy ▸ h x hx

theorem idxOf_map_of_injOn [DecidableEq α] [DecidableEq β] {f : α → β} {x : α}
    (hf : ∀ y ∈ xs, f y = f x → y = x) : (xs.map f).idxOf (f x) = xs.idxOf x := by
  induction xs with
  | nil => rfl
  | cons y ys ih =>
      rcases List.forall_mem_cons.1 hf with ⟨hy, hys⟩
      by_cases hyx : y = x
      · simp [hyx]
      · have hne : f y ≠ f x := fun heq => hyx (hy heq)
        simp [List.idxOf_cons_ne _ hyx, List.idxOf_cons_ne _ hne, ih hys]

end

/-! ## What corresponds is met in the same order -/

namespace View.Corresponds

variable {v w : View} {root root' : Node} {ss ts : List StmtId} {f : StmtId → StmtId} {s t : StmtId}

theorem mem (h : v.Corresponds w root root' ss ts f) (hs : s ∈ ss) : f s ∈ ts :=
  h.bijective.mapsTo hs

theorem below (h : v.Corresponds w root root' ss ts f) (hs : s ∈ ss) :
    w.below (f s) = (v.below s).map f := by
  have hlists : (w.children (f s)).map w.listed =
      (v.children s).map fun b => (v.listed b).map f :=
    map_eq_map_of_forall₂ (h.children s hs)
  rw [View.below, List.flatMap_def, hlists, View.below, List.map_flatMap, List.flatMap_def]

theorem eq_map (h : v.Corresponds w root root' ss ts f) : ts = ss.map f := by
  have hmapped : w.Meets ((v.tops root).map f) (ss.map f) :=
    Visits.map h.meets.2 (fun s hs => Visits.enter_of_mem h.meets'.2 (h.mem hs))
      fun s hs => h.below hs
  rw [← h.tops] at hmapped
  exact h.meets'.2.unique hmapped

theorem idxOf (h : v.Corresponds w root root' ss ts f) (hs : s ∈ ss) :
    ts.idxOf (f s) = ss.idxOf s := by
  rw [h.eq_map]
  exact idxOf_map_of_injOn fun t ht heq => h.bijective.injOn ht hs heq

theorem nodup (h : v.Corresponds w root root' ss ts f) (honce : ss.Nodup) : ts.Nodup := by
  rw [h.eq_map]
  exact honce.map_on fun s hs t ht heq => h.bijective.injOn hs ht heq

end View.Corresponds

namespace Arena

variable {a a' : Arena} {root root' : Node} {ss ts : List StmtId} {f : StmtId → StmtId}
  {s : StmtId}

/-! ## Corresponding lines -/

theorem stmt_eq_ok {data : Stmt} (h : a.stmt s = .ok data) :
    a.view.kind? s = some data.kind ∧ a.view.type? s = some data.ty :=
  ⟨kind_eq_ok.1 (bind_eq_ok.2 ⟨data, h, rfl⟩), type_eq_ok.1 (bind_eq_ok.2 ⟨data, h, rfl⟩)⟩

theorem exists_stmt (h : a.view.HasStmt s) : ∃ data, a.stmt s = .ok data := by
  rcases exists_kind_iff.2 h with ⟨k, hk⟩
  rcases bind_eq_ok.1 (kind_eq_ok.2 hk) with ⟨data, hdata, _⟩
  exact ⟨data, hdata⟩

theorem operand_corresponds (h : a.view.Corresponds a'.view root root' ss ts f) (hs : s ∈ ss)
    {t u : StmtId} (htu : if t ∈ ss then u = f t else u ∉ ts) :
    (Naming.inOrder a' ts).operand (f s) u = (Naming.inOrder a ss).operand s t := by
  by_cases ht : t ∈ ss
  · rw [if_pos ht] at htu
    subst htu
    -- Both have the same place in their orders, no later than the reader in both or in neither.
    have herased : a'.isErased (f t) = a.isErased t := h.erased t ht
    simp only [Naming.inOrder, herased, h.idxOf ht, h.idxOf hs, ht, h.mem ht]
  · -- Neither has a place, so neither has a name.
    rw [if_neg ht] at htu
    simp [Naming.inOrder, ht, htu]

theorem headline_corresponds (h : a.view.Corresponds a'.view root root' ss ts f) (hs : s ∈ ss)
    {data data' : Stmt} (hdata : a.stmt s = .ok data) (hdata' : a'.stmt (f s) = .ok data')
    (level : Nat) :
    (Naming.inOrder a' ts).headline level (f s) data' =
      (Naming.inOrder a ss).headline level s data := by
  rcases stmt_eq_ok hdata with ⟨hkind, htype⟩
  rcases stmt_eq_ok hdata' with ⟨hkind', htype'⟩
  have hform : data'.kind.form = data.kind.form := by
    simpa [hkind, hkind'] using h.form s hs
  have hty : data'.ty = data.ty := by
    simpa [htype, htype'] using h.type? s hs
  have hnumber : (Naming.inOrder a' ts).number (f s) = (Naming.inOrder a ss).number s := h.idxOf hs
  have htexts : data'.kind.operands.map ((Naming.inOrder a' ts).operand (f s)) =
      data.kind.operands.map ((Naming.inOrder a ss).operand s) := by
    have hoperands := h.operands s hs
    rw [View.operands_of_kind hkind, View.operands_of_kind hkind'] at hoperands
    exact map_eq_map_of_forall₂ (hoperands.imp fun _ _ htu => operand_corresponds h hs htu)
  rw [Naming.headline, Naming.headline, hnumber, hty, htexts, ← Kind.textWith_form, hform,
    Kind.textWith_form]

/-- The lines of a statement from its first line and the lines of its bodies. -/
def enclosed (level : Nat) (head : String) : List (List String) → List String
  | [] => [head]
  | bodies => (head ++ " \x7b") :: ([indentation level ++ "\x7d else \x7b"].intercalate bodies ++
      [indentation level ++ "\x7d"])

theorem renderWithin_succ (names : Naming) (depth level : Nat) {data : Stmt}
    (hdata : a.stmt s = .ok data) : a.renderWithin names (depth + 1) level s =
      (data.kind.children.mapM fun b => do
        return (← (← a.listing b).mapM (a.renderWithin names depth (level + 1))).flatten) >>=
      fun bodies => pure (enclosed level (names.headline level s data) bodies) := by
  rw [renderWithin, hdata, ok_bind]
  cases data.kind.children with
  | nil => rfl
  | cons b bs =>
      simp only [List.mapM_cons, bind_assoc, pure_bind]
      rfl

/-- Corresponding statements have the same lines, through whatever levels the two descents are
carried out. -/
theorem renderWithin_corresponds (h : a.view.Corresponds a'.view root root' ss ts f)
    {depth depth' : Nat} (level : Nat) {here here' : List StmtId} (hs : s ∈ ss)
    (hhere : a.collectWithin depth s = .ok here)
    (hhere' : a'.collectWithin depth' (f s) = .ok here') :
    a'.renderWithin (Naming.inOrder a' ts) depth' level (f s) =
      a.renderWithin (Naming.inOrder a ss) depth level s := by
  -- The induction is on the levels of the first descent; the second has any that suffice for it.
  induction depth generalizing depth' level s here here' with
  | zero => exact absurd hhere (a.descends_collectWithin.zero s here)
  | succ depth ih =>
      cases depth' with
      | zero => exact absurd hhere' (a'.descends_collectWithin.zero (f s) here')
      | succ depth' =>
          rcases (a.descends_collectWithin.succ depth s here).1 hhere with
            ⟨⟨hissued, hblocks⟩, inner, hinner, _⟩
          rcases (a'.descends_collectWithin.succ depth' (f s) here').1 hhere' with
            ⟨⟨hissued', hblocks'⟩, inner', hinner', _⟩
          rcases exists_stmt hissued with ⟨data, hdata⟩
          rcases exists_stmt hissued' with ⟨data', hdata'⟩
          rw [h.below hs] at hinner'
          -- The bodies are rendered from what corresponding blocks list.
          have hbodies : (a'.view.children (f s)).mapM (fun b => do
                return (← (← a'.listing b).mapM
                  (a'.renderWithin (Naming.inOrder a' ts) depth' (level + 1))).flatten) =
              (a.view.children s).mapM fun b => do
                return (← (← a.listing b).mapM
                  (a.renderWithin (Naming.inOrder a ss) depth (level + 1))).flatten := by
            refine mapM_eq_mapM_of_forall₂ (h.children s hs) fun b hb c hc hlisted => ?_
            have hlines : ((a.view.listed b).map f).mapM
                  (a'.renderWithin (Naming.inOrder a' ts) depth' (level + 1)) =
                (a.view.listed b).mapM
                  (a.renderWithin (Naming.inOrder a ss) depth (level + 1)) := by
              -- What a body lists is below `s`, and both descents go on from it.
              refine mapM_map_eq_mapM fun t ht => ?_
              have hbelow : t ∈ a.view.below s := View.mem_below.2 ⟨b, hb, ht⟩
              have hmem : t ∈ ss := h.meets.2.below_subset hs hbelow
              rcases exists_ok_of_mem_of_gather hinner hbelow with ⟨there, hthere, _⟩
              rcases exists_ok_of_mem_of_gather hinner' (List.mem_map_of_mem hbelow) with
                ⟨there', hthere', _⟩
              exact ih (level + 1) hmem hthere hthere'
            rw [listing_eq_ok.2 ⟨hblocks b hb, rfl⟩, listing_eq_ok.2 ⟨hblocks' c hc, hlisted⟩,
              ok_bind, ok_bind, hlines]
          rw [renderWithin_succ _ _ _ hdata, renderWithin_succ _ _ _ hdata',
            headline_corresponds h hs hdata hdata', ← View.children_of_kind (stmt_eq_ok hdata).1,
            ← View.children_of_kind (stmt_eq_ok hdata').1, hbodies]

theorem render_eq_mapM (names : Naming) (h : a.view.MeetsFrom root ss) :
    a.render names root = (a.view.tops root).mapM (a.renderWithin names a.maxDepth 0) >>=
      fun lines => pure lines.flatten := by
  cases root with
  | block b =>
      rw [render, listing_eq_ok.2 ⟨h.1 b rfl, rfl⟩]
      rfl
  | stmt s =>
      rw [render, View.tops]
      simp

theorem render_corresponds (h : a.view.Corresponds a'.view root root' ss ts f) :
    a'.render (Naming.inOrder a' ts) root' = a.render (Naming.inOrder a ss) root := by
  have hlines : ((a.view.tops root).map f).mapM
        (a'.renderWithin (Naming.inOrder a' ts) a'.maxDepth 0) =
      (a.view.tops root).mapM (a.renderWithin (Naming.inOrder a ss) a.maxDepth 0) := by
    -- Each descent suffices with the levels of its own arena.
    refine mapM_map_eq_mapM fun s hs => ?_
    have hmem : s ∈ ss := Visits.roots_subset h.meets.2 hs
    rcases Visits.exists_segment h.meets.2 hmem with ⟨_, here, _, hhere, _⟩
    rcases Visits.exists_segment h.meets'.2 (h.mem hmem) with ⟨_, here', _, hhere', _⟩
    exact renderWithin_corresponds h 0 hmem (collectWithin_maxDepth_eq_ok.2 hhere)
      (collectWithin_maxDepth_eq_ok.2 hhere')
  rw [render_eq_mapM _ h.meets, render_eq_mapM _ h.meets', h.tops, hlines]

/-- Trees that correspond and meet nothing twice have the same listing. -/
theorem print_corresponds (h : a.view.Corresponds a'.view root root' ss ts f) (honce : ss.Nodup) :
    ∃ text, a.print root = .ok text ∧ a'.print root' = .ok text := by
  have honce' : ts.Nodup := h.nodup honce
  rcases print_of_follows (collect_eq_ok.2 h.meets) honce (follows_inOrder a honce) with
    ⟨lines, hrender, hprint⟩
  rcases print_of_follows (collect_eq_ok.2 h.meets') honce' (follows_inOrder a' honce') with
    ⟨lines', hrender', hprint'⟩
  have hsame : lines' = lines := by
    rw [render_corresponds h, hrender] at hrender'
    exact (Except.ok.inj hrender').symm
  exact ⟨_, hprint, hsame ▸ hprint'⟩

/-- A loop whose bounds are a statement before it and one outside the tree. -/
def loopToOutside : Arena := ofEdits
  [.createBlock, .createBlock, .createStmt (.const (.int 7)) .i32,
    .createStmt (.const (.int 1)) .i32, .push ⟨0⟩ ⟨1⟩,
    .createStmt (.rangeFor ⟨1⟩ ⟨0⟩ ⟨1⟩) .void, .push ⟨0⟩ ⟨2⟩,
    .createStmt (.loopIndex ⟨2⟩ 0) .i32, .push ⟨1⟩ ⟨3⟩,
    .createStmt (.binary .add ⟨3⟩ ⟨1⟩) .i32, .push ⟨1⟩ ⟨4⟩]

/-- The same loop, created in another order. The statement before it has replaced another one, and
the one outside is not the same. -/
def loopToOutsideAnew : Arena := ofEdits
  [.createBlock, .createBlock, .createBlock, .createStmt (.const (.int 5)) .i64, .push ⟨2⟩ ⟨0⟩,
    .createStmt (.const (.bool true)) .i1, .createStmt (.rangeFor ⟨0⟩ ⟨1⟩ ⟨0⟩) .void,
    .push ⟨2⟩ ⟨2⟩, .createStmt (.const (.int 1)) .i32, .replace ⟨0⟩ ⟨3⟩,
    .createStmt (.loopIndex ⟨2⟩ 0) .i32, .createStmt (.binary .add ⟨4⟩ ⟨3⟩) .i32,
    .push ⟨0⟩ ⟨5⟩, .insertBefore ⟨0⟩ ⟨5⟩ ⟨4⟩]

def loopToOutsideText : String := String.join
  ["%0 = const 1 : i32\n", "%1 = range_for %0, %? \x7b\n", "  %2 = loop_index %1, 0 : i32\n",
    "  %3 = add %2, %0 : i32\n", "\x7d\n"]

def anew : StmtId → StmtId
  | ⟨1⟩ => ⟨3⟩
  | ⟨3⟩ => ⟨4⟩
  | ⟨4⟩ => ⟨5⟩
  | s => s

theorem corresponds_anew : loopToOutside.view.Corresponds loopToOutsideAnew.view (.block ⟨0⟩)
    (.block ⟨2⟩) [⟨1⟩, ⟨2⟩, ⟨3⟩, ⟨4⟩] [⟨3⟩, ⟨2⟩, ⟨4⟩, ⟨5⟩] anew where
  meets := collect_eq_ok.1 (by decide +kernel)
  meets' := collect_eq_ok.1 (by decide +kernel)
  bijective := by
    refine ⟨?mapsTo, ?injOn, ?surjOn⟩
    case mapsTo =>
      have hmaps : ∀ s ∈ [⟨1⟩, ⟨2⟩, ⟨3⟩, ⟨4⟩], anew s ∈ [⟨3⟩, ⟨2⟩, ⟨4⟩, ⟨5⟩] := by decide
      exact hmaps
    case injOn =>
      have hinj : ∀ s ∈ [⟨1⟩, ⟨2⟩, ⟨3⟩, ⟨4⟩], ∀ t ∈ [⟨1⟩, ⟨2⟩, ⟨3⟩, ⟨4⟩],
          anew s = anew t → s = t := by
        decide
      exact fun s hs t ht => hinj s hs t ht
    case surjOn =>
      have hsurj : ∀ t ∈ [⟨3⟩, ⟨2⟩, ⟨4⟩, ⟨5⟩], ∃ s ∈ [⟨1⟩, ⟨2⟩, ⟨3⟩, ⟨4⟩], anew s = t := by decide
      exact hsurj
  tops := by decide +kernel
  children := by decide +kernel
  operands := by decide +kernel
  form := by decide +kernel
  type? := by decide +kernel
  erased := by decide +kernel

theorem print_corresponds_anew :
    loopToOutside.view.Corresponds loopToOutsideAnew.view (.block ⟨0⟩) (.block ⟨2⟩)
        [⟨1⟩, ⟨2⟩, ⟨3⟩, ⟨4⟩] [⟨3⟩, ⟨2⟩, ⟨4⟩, ⟨5⟩] anew ∧
      [⟨1⟩, ⟨2⟩, ⟨3⟩, (⟨4⟩ : StmtId)].Nodup ∧
      loopToOutsideAnew.print (.block ⟨2⟩) = .ok loopToOutsideText := by
  have honce : [⟨1⟩, ⟨2⟩, ⟨3⟩, (⟨4⟩ : StmtId)].Nodup := by decide
  rcases print_corresponds corresponds_anew honce with ⟨text, hprint, hprint'⟩
  have htext : loopToOutside.print (.block ⟨0⟩) = .ok loopToOutsideText := by
    decide +kernel
  cases htext.symm.trans hprint
  exact ⟨corresponds_anew, honce, hprint'⟩

end Arena

end KernelIR
