import KernelIR.Proofs.Arena.Nesting
import KernelIR.Proofs.Tree.Scan
import KernelIR.Tree.Listing

/-!
# Listings as renderings

A listing gives out numbers while it writes. A rendering is told beforehand how each statement is
numbered and each operand is written, and goes down the tree without a state. Where the descent
meets no statement twice, the listing is the rendering that numbers the statements in the order in
which they are met, and writes an operand by its number if it was met no later than its reader.
-/

namespace KernelIR

/-! ## Renderings -/

/-- How the statements of a tree are numbered, and how each of them writes its operands. -/
structure Naming where
  number : StmtId → Nat
  /-- The text of an operand, for its reader. -/
  operand : StmtId → StmtId → String

/-- What a line says about the kind of its statement, with the texts of the operands. -/
def Kind.textWith (k : Kind) (operands : List String) : String :=
  let separated := String.intercalate ", " operands
  match k with
  | .const value => "const " ++ value.text
  | .unary op _ => op.text ++ " " ++ separated
  | .binary op _ _ => op.text ++ " " ++ separated
  | .globalPtr snode _ => "global_ptr @" ++ snode ++ "[" ++ separated ++ "]"
  | .loopIndex _ index => "loop_index " ++ separated ++ ", " ++ toString index.toNat
  | .structFor snode _ => "struct_for @" ++ snode
  | k => if operands = [] then k.name else k.name ++ " " ++ separated

/-- The line of a statement, up to the brace that opens its blocks. -/
def Naming.headline (names : Naming) (level : Nat) (s : StmtId) (data : Stmt) : String :=
  indentation level ++ "%" ++ toString (names.number s) ++ " = " ++
    data.kind.textWith (data.kind.operands.map (names.operand s)) ++ data.ty.suffix

namespace Arena

/-- The rendering of a statement and of what is below it, through `depth` levels. -/
def renderWithin (a : Arena) (names : Naming) : Nat → Nat → StmtId → Except Fault (List String)
  | 0, _, _ => throw .selfContaining
  | depth + 1, level, s => do
    let data ← a.stmt s
    match data.kind.children with
    | [] => return [names.headline level s data]
    | blocks =>
      let bodies ← blocks.mapM fun b => do
        return (← (← a.listing b).mapM (a.renderWithin names depth (level + 1))).flatten
      return (names.headline level s data ++ " \x7b") ::
        ([indentation level ++ "\x7d else \x7b"].intercalate bodies ++
          [indentation level ++ "\x7d"])

/-- The rendering of everything below a node. -/
def render (a : Arena) (names : Naming) : Node → Except Fault (List String)
  | .block b => do
    return (← (← a.listing b).mapM (a.renderWithin names a.maxDepth 0)).flatten
  | .stmt s => a.renderWithin names a.maxDepth 0 s

/-- How an operand is written when the statements `met` have their numbers. -/
def nameIn (a : Arena) (met : List StmtId) (t : StmtId) : String :=
  match met.idxOf? t with
  | some number => if a.isErased t then "%?" else "%" ++ toString number
  | none => "%?"

end Arena

/-- The names are those that a listing gives that meets `ss`. -/
def Naming.Follows (names : Naming) (a : Arena) (ss : List StmtId) : Prop :=
  ∀ done s rest, ss = done ++ s :: rest → names.number s = done.length ∧
    ∀ t ∈ a.view.operands s, names.operand s t = a.nameIn (done ++ [s]) t

/-! ## Numbers given so far -/

/-- The statements that have a number are `done`, numbered in this order. -/
structure Numbering.Lists (n : Numbering) (done : List StmtId) : Prop where
  next : n.next = done.length
  number : ∀ t : StmtId, n.numbers.get t.index = done.idxOf? t

namespace Numbering.Lists

variable {n : Numbering} {done : List StmtId} {s : StmtId}

theorem empty : Numbering.empty.Lists [] :=
  ⟨rfl, fun t => Column.get_empty t.index⟩

theorem assign (h : n.Lists done) (hs : s ∉ done) : (n.assign s).Lists (done ++ [s]) := by
  refine ⟨by simp [Numbering.assign, h.next], fun t => ?_⟩
  rw [Numbering.assign, Column.get_set, h.number, h.next]
  by_cases hts : t = s
  · subst hts
    have hnone : done.findIdx? (· == t) = none := List.idxOf?_eq_none_iff.2 hs
    simp [List.idxOf?, List.findIdx?_append, hnone]
  · have hidx : s.index ≠ t.index := fun hidx => hts (Arena.stmtIndex_eq_iff.1 hidx)
    have hne : (s == t) = false := by simpa using fun heq : s = t => hts heq.symm
    simp [List.idxOf?, List.findIdx?_append, hidx, hne]

theorem operandText (h : n.Lists done) (a : Arena) (t : StmtId) :
    n.operandText a t = a.nameIn done t := by
  have hnumber := h.number t
  cases hmet : done.idxOf? t with
  | none => simp [Numbering.operandText, Arena.nameIn, hnumber, hmet]
  | some number => simp [Numbering.operandText, Arena.nameIn, hnumber, hmet]

end Numbering.Lists

theorem Kind.text_eq (k : Kind) (a : Arena) (n : Numbering) :
    k.text a n = k.textWith (k.operands.map (n.operandText a)) := by
  cases k <;> rfl

/-! ## Writing and rendering -/

/-- Where a descent lists `c`, as the next part of `ss`, the writer `f` writes what `g` renders, and
numbers that part. -/
def Writes {β : Type} (ss : List StmtId) (f : StateT Numbering (Except Fault) β)
    (g : Except Fault β) (c : Except Fault (List StmtId)) : Prop :=
  ∀ done part rest n, ss = done ++ (part ++ rest) → c = .ok part → n.Lists done →
    ∃ out n', f.run n = .ok (out, n') ∧ g = .ok out ∧ n'.Lists (done ++ part)

namespace Writes

variable {α β γ : Type} {ss : List StmtId}

theorem lift {x : Except Fault α} {f : α → StateT Numbering (Except Fault) β}
    {g : α → Except Fault β} {c : α → Except Fault (List StmtId)}
    (h : ∀ y, x = .ok y → Writes ss (f y) (g y) (c y)) :
    Writes ss (liftM x >>= f) (x >>= g) (x >>= c) := by
  intro done part rest n hss hc hn
  rcases bind_eq_ok.1 hc with ⟨y, rfl, hc⟩
  exact h y rfl done part rest n hss hc hn

theorem map {f : StateT Numbering (Except Fault) β} {g : Except Fault β}
    {c : Except Fault (List StmtId)} (h : Writes ss f g c) (k : β → γ) :
    Writes ss (f >>= fun out => pure (k out)) (g >>= fun out => pure (k out)) c := by
  intro done part rest n hss hc hn
  rcases h done part rest n hss hc hn with ⟨out, n', hf, hg, hn'⟩
  refine ⟨k out, n', ?_, by rw [hg]; rfl, hn'⟩
  rw [StateT.run_bind, hf]
  rfl

theorem mapM {f : α → StateT Numbering (Except Fault) β} {g : α → Except Fault β}
    {c : α → Except Fault (List StmtId)} {xs : List α}
    (h : ∀ x ∈ xs, Writes ss (f x) (g x) (c x)) :
    Writes ss (xs.mapM f) (xs.mapM g) (gather c xs) := by
  induction xs with
  | nil =>
      intro done part rest n hss hc hn
      cases hc
      exact ⟨[], n, rfl, rfl, by simpa using hn⟩
  | cons x xs ih =>
      intro done part rest n hss hc hn
      rcases gather_cons_eq_ok.1 hc with ⟨here, hhere, there, hthere, rfl⟩
      have hfirst : ss = done ++ (here ++ (there ++ rest)) := by simp [hss]
      rcases h x List.mem_cons_self done here _ n hfirst hhere hn with ⟨out, n₁, hf, hg, hn₁⟩
      have hsecond : ss = (done ++ here) ++ (there ++ rest) := by simp [hss]
      have hrest := ih fun y hy => h y (List.mem_cons_of_mem x hy)
      rcases hrest _ there rest n₁ hsecond hthere hn₁ with ⟨outs, n', hfs, hgs, hn'⟩
      refine ⟨out :: outs, n', ?_, ?_, by rwa [List.append_assoc] at hn'⟩
      · rw [List.mapM_cons, StateT.run_bind, hf, ok_bind, StateT.run_bind, hfs]
        rfl
      · rw [List.mapM_cons, hg, hgs]
        rfl

end Writes

namespace Arena

variable {a : Arena} {names : Naming} {ss : List StmtId}

theorem stmt_eq_ok_kind {s : StmtId} {data : Stmt} (h : a.stmt s = .ok data) :
    a.view.operands s = data.kind.operands := by
  have hkind : a.kind s = .ok data.kind := by
    rw [kind, h]
    rfl
  exact View.operands_of_kind (kind_eq_ok.1 hkind)

theorem headline_eq (hnames : names.Follows a ss) (hnodup : ss.Nodup) {done rest : List StmtId}
    {s : StmtId} (hss : ss = done ++ s :: rest) {data : Stmt} (hdata : a.stmt s = .ok data)
    {n : Numbering} (hn : n.Lists done) (level : Nat) :
    (n.assign s).Lists (done ++ [s]) ∧
      a.headline level n.next data (n.assign s) = names.headline level s data := by
  have hs : s ∉ done := by
    intro hmem
    rw [hss] at hnodup
    exact (List.nodup_append.1 hnodup).2.2 s hmem s List.mem_cons_self rfl
  have hlists := hn.assign hs
  rcases hnames done s rest hss with ⟨hnumber, hoperands⟩
  refine ⟨hlists, ?_⟩
  have htexts : data.kind.operands.map ((n.assign s).operandText a) =
      data.kind.operands.map (names.operand s) := by
    refine List.map_congr_left fun t ht => ?_
    rw [hlists.operandText, hoperands t (stmt_eq_ok_kind hdata ▸ ht)]
  rw [headline, Naming.headline, Kind.text_eq, htexts, hn.next, hnumber]

/-- What a block lists is written as it is rendered if each of its statements is. -/
theorem writes_listing (a : Arena) {f : StmtId → StateT Numbering (Except Fault) (List String)}
    {g : StmtId → Except Fault (List String)} {c : StmtId → Except Fault (List StmtId)}
    (h : ∀ s, Writes ss (f s) (g s) (c s)) (b : BlockId) :
    Writes ss (do return (← (← a.listing b).mapM f).flatten)
      (do return (← (← a.listing b).mapM g).flatten)
      (do return (← (← a.listing b).mapM c).flatten) :=
  Writes.lift fun _ _ => (Writes.mapM fun s _ => h s).map List.flatten

theorem writes_linesWithin (hnames : names.Follows a ss) (hnodup : ss.Nodup) (depth level : Nat)
    (s : StmtId) : Writes ss (a.linesWithin depth level s) (a.renderWithin names depth level s)
      (a.collectWithin depth s) := by
  induction depth generalizing level s with
  | zero =>
      intro done part rest n _ hc _
      cases hc
  | succ depth ih =>
      intro done part rest n hss hc hn
      rcases bind_eq_ok.1 hc with ⟨k, hk, hc⟩
      rcases bind_eq_ok.1 hc with ⟨below, hbelow, hc⟩
      cases hc
      rcases bind_eq_ok.1 hk with ⟨data, hdata, hkind⟩
      cases hkind
      rcases headline_eq hnames hnodup (by simpa using hss) hdata hn level with ⟨hlists, hhead⟩
      -- The statement has its number when its operands and its blocks are written.
      have hbodies : Writes ss _ _ (gather _ data.kind.children) :=
        Writes.mapM fun b _ => writes_listing a (ih (level + 1)) b
      have hgather : gather
          (fun b => do return (← (← a.listing b).mapM (a.collectWithin depth)).flatten)
          data.kind.children = .ok below.flatten := by
        rw [gather, hbelow]
        rfl
      rcases hbodies (done ++ [s]) below.flatten rest _ (by simp [hss]) hgather hlists with
        ⟨bodies, n', hwritten, hrendered, hn'⟩
      rw [linesWithin, renderWithin]
      simp only [hdata, ok_bind, lift_ok_bind, StateT.run_bind, StateT.run_get, StateT.run_modify,
        pure_bind]
      cases hchildren : data.kind.children with
      | nil =>
        rw [hchildren] at hwritten hrendered
        cases hwritten
        cases hrendered
        refine ⟨[names.headline level s data], n.assign s, ?_, rfl, by simpa using hn'⟩
        rw [← hhead]
        rfl
      | cons b bs =>
        rw [hchildren] at hwritten hrendered
        simp only [StateT.run_bind, hwritten, hrendered, ok_bind]
        refine ⟨_, n', rfl, ?_, by simpa using hn'⟩
        rw [hhead]
        rfl

/-- A listing is the rendering that its own order gives. -/
theorem lines_eq_render {root : Node} (hnames : names.Follows a ss) (hnodup : ss.Nodup)
    (hcollect : a.collect root = .ok ss) :
    ∃ lines, a.render names root = .ok lines ∧ a.lines root = .ok lines := by
  have hwrites := writes_linesWithin hnames hnodup a.maxDepth 0
  cases root with
  | block b =>
      rcases writes_listing a hwrites b [] ss [] .empty (by simp) hcollect .empty with
        ⟨lines, n', hwritten, hrendered, _⟩
      refine ⟨lines, hrendered, ?_⟩
      show StateT.run' _ Numbering.empty = _
      rw [StateT.run'_eq, hwritten]
      rfl
  | stmt s =>
      rcases hwrites s [] ss [] .empty (by simp) hcollect .empty with
        ⟨lines, n', hwritten, hrendered, _⟩
      refine ⟨lines, hrendered, ?_⟩
      show StateT.run' _ Numbering.empty = _
      rw [StateT.run'_eq, hwritten]
      rfl

end Arena

end KernelIR
