import KernelIR.Proofs.Tree.Rendering

/-!
# Numbers by place

Where the descent from a node meets no statement twice, what a listing writes is known before it is
begun: a statement has its place in the order of the descent as its number, and an operand is
written by its number if it is not erased and its place is not behind that of its reader. The
listing of the node is the rendering with these names, which keeps no state.
-/

namespace KernelIR

/-- Every statement is numbered by its place in `ss`. An operand is written by its number if it is
not erased and has its place in `ss` no later than its reader. -/
def Naming.inOrder (a : Arena) (ss : List StmtId) : Naming where
  number s := ss.idxOf s
  operand s t :=
    if a.isErased t = false ∧ t ∈ ss ∧ ss.idxOf t ≤ ss.idxOf s then
      "%" ++ toString (ss.idxOf t)
    else
      "%?"

namespace Arena

variable {a : Arena} {root : Node} {names : Naming} {ss done rest : List StmtId} {s t : StmtId}

/-! ## Places -/

theorem idxOf_split (honce : (done ++ s :: rest).Nodup) :
    (done ++ s :: rest).idxOf s = done.length := by
  have hs : s ∉ done := fun hmem =>
    (List.nodup_append.1 honce).2.2 s hmem s List.mem_cons_self rfl
  simp [List.idxOf_append_of_notMem hs]

/-- What is met up to `s` is what has its place no later than `s`. -/
theorem mem_upTo_iff (honce : (done ++ s :: rest).Nodup) :
    t ∈ done ++ [s] ↔
      t ∈ done ++ s :: rest ∧ (done ++ s :: rest).idxOf t ≤ (done ++ s :: rest).idxOf s := by
  rw [idxOf_split honce, List.append_cons done s rest]
  have hlength : (done ++ [s]).length = done.length + 1 := List.length_append
  constructor
  · intro ht
    have hplace : (done ++ [s]).idxOf t < (done ++ [s]).length := List.idxOf_lt_length_of_mem ht
    refine ⟨List.mem_append_left rest ht, ?_⟩
    rw [List.idxOf_append_of_mem ht]
    omega
  · rintro ⟨_, hplace⟩
    -- What is not among the first has its place behind them.
    by_contra ht
    rw [List.idxOf_append_of_notMem ht] at hplace
    omega

/-- These are the names that a listing gives. -/
theorem follows_inOrder (a : Arena) (honce : ss.Nodup) : (Naming.inOrder a ss).Follows a ss := by
  rintro done s rest rfl
  refine ⟨idxOf_split honce, fun t _ => ?_⟩
  -- The names agree on what was met up to the reader, the reader included, and on the rest.
  by_cases ht : t ∈ done ++ [s]
  · have hmet := (mem_upTo_iff honce).1 ht
    have hplace : (done ++ s :: rest).idxOf t = (done ++ [s]).idxOf t := by
      rw [List.append_cons, List.idxOf_append_of_mem ht]
    rw [nameIn, idxOf?_of_mem ht, ← hplace]
    cases herased : a.isErased t with
    | true => exact if_neg fun hwritten => by simp [herased] at hwritten
    | false => exact if_pos ⟨herased, hmet⟩
  · have hnone : (done ++ [s]).idxOf? t = none := List.idxOf?_eq_none_iff.2 ht
    rw [nameIn, hnone]
    exact if_neg fun hwritten => ht ((mem_upTo_iff honce).2 hwritten.2)

/-! ## Listings -/

theorem print_of_follows (hcollect : a.collect root = .ok ss) (honce : ss.Nodup)
    (hnames : names.Follows a ss) :
    ∃ lines, a.render names root = .ok lines ∧
      a.print root = .ok (String.join (lines.map (· ++ "\n"))) := by
  rcases lines_eq_render hnames honce hcollect with ⟨lines, hrender, hlines⟩
  exact ⟨lines, hrender, bind_eq_ok.2 ⟨lines, hlines, rfl⟩⟩

/-- If the descent from a node ends and meets no statement twice, the listing of the node is its
rendering with the numbers and names that the order of the descent gives. -/
theorem print_eq_render (hcollect : a.collect root = .ok ss) (honce : ss.Nodup) :
    ∃ lines, a.render (Naming.inOrder a ss) root = .ok lines ∧
      a.print root = .ok (String.join (lines.map (· ++ "\n"))) :=
  print_of_follows hcollect honce (follows_inOrder a honce)

/-- A branch whose first body is that of a loop that was replaced, so it lists a tombstone. In its
bodies are readers of the tombstone, of a statement outside the tree, of one that comes later and of
themselves. -/
def oddReaders : Arena := ofEdits
  [.createBlock, .createBlock, .createBlock, .createBlock,
    .createStmt (.const (.int 1)) .i32, .push ⟨0⟩ ⟨0⟩,
    .createStmt (.whileLoop ⟨1⟩) .void, .push ⟨0⟩ ⟨1⟩,
    .createStmt (.const (.int 2)) .i32, .push ⟨1⟩ ⟨2⟩,
    .createStmt (.const (.bool true)) .i1, .replace ⟨1⟩ ⟨3⟩, .detachBlock ⟨1⟩,
    .createStmt (.const (.int 3)) .i32,
    .createStmt (.ifElse ⟨3⟩ ⟨1⟩ (some ⟨2⟩)) .void, .push ⟨0⟩ ⟨5⟩,
    .createStmt (.binary .add ⟨0⟩ ⟨4⟩) .i32, .push ⟨1⟩ ⟨6⟩,
    .createStmt (.const (.int 4)) .i32, .createStmt (.print ⟨7⟩) .void, .push ⟨1⟩ ⟨8⟩,
    .redirect ⟨7⟩ ⟨2⟩,
    .createStmt (.rangeFor ⟨0⟩ ⟨0⟩ ⟨3⟩) .void, .push ⟨2⟩ ⟨9⟩,
    .createStmt (.loopIndex ⟨9⟩ 0) .i32, .push ⟨3⟩ ⟨10⟩,
    .createStmt (.print ⟨7⟩) .void, .push ⟨3⟩ ⟨11⟩, .push ⟨3⟩ ⟨7⟩,
    .createStmt (.print ⟨4⟩) .void, .push ⟨2⟩ ⟨12⟩, .redirect ⟨4⟩ ⟨12⟩]

/-- What the descent through `oddReaders` meets, in its order. -/
def oddReadersOrder : List StmtId :=
  [⟨0⟩, ⟨3⟩, ⟨5⟩, ⟨2⟩, ⟨6⟩, ⟨8⟩, ⟨9⟩, ⟨10⟩, ⟨11⟩, ⟨7⟩, ⟨12⟩]

/-- The tombstone has a number, which its reader does not write. -/
def oddReadersLines : List String :=
  ["%0 = const 1 : i32", "%1 = const true : i1", "%2 = if %1 \x7b", "  %3 = const 2 : i32",
    "  %4 = add %0, %? : i32", "  %5 = print %?", "\x7d else \x7b",
    "  %6 = range_for %0, %0 \x7b", "    %7 = loop_index %6, 0 : i32", "    %8 = print %?",
    "    %9 = const 4 : i32", "  \x7d", "  %10 = print %10", "\x7d"]

theorem print_eq_render_odd_readers :
    oddReaders.collect (.block ⟨0⟩) = .ok oddReadersOrder ∧ oddReadersOrder.Nodup ∧
      oddReaders.render (Naming.inOrder oddReaders oddReadersOrder) (.block ⟨0⟩) =
        .ok oddReadersLines ∧
      oddReaders.print (.block ⟨0⟩) =
        .ok (String.join (oddReadersLines.map (· ++ "\n"))) := by
  have hcollect : oddReaders.collect (.block ⟨0⟩) = .ok oddReadersOrder := by
    decide +kernel
  have honce : oddReadersOrder.Nodup := by decide
  have hlines : oddReaders.render (Naming.inOrder oddReaders oddReadersOrder) (.block ⟨0⟩) =
      .ok oddReadersLines := by
    decide +kernel
  rcases print_eq_render hcollect honce with ⟨lines, hrender, hprint⟩
  cases hlines.symm.trans hrender
  exact ⟨hcollect, honce, hlines, hprint⟩

end Arena

end KernelIR
