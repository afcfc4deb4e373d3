import KernelIR.Fault

/-!
# The log of a rewrite

Rewriting reports what it does as events, each inside the spans that were open when it happened.
`Logged` is a computation that reports events and may end in a fault; the events reported before a
fault are kept. Spans are added from the inside outward: a computation knows nothing of the spans
that it runs in.
-/

namespace KernelIR

/-! ## Entries -/

inductive Level where
  | trace
  | debug
  | warn
deriving DecidableEq, Repr

def Level.text : Level → String
  | .trace => "TRACE"
  | .debug => "DEBUG"
  | .warn => "WARN"

/-- A message with its named values, in order. -/
structure Entry where
  level : Level
  message : String
  fields : List (String × String)
deriving DecidableEq, Repr

/-- Level, message and values on one line. -/
def Entry.text (e : Entry) : String :=
  e.level.text ++ " " ++ e.message ++
    String.join (e.fields.map fun (name, value) => " " ++ name ++ "=" ++ value)

/-! ## Events and spans -/

/-- What rewriting reports. -/
inductive Event where
  /-- A statement was erased, and `discarded` others with it. -/
  | erased (stmt : StmtId) (discarded : Nat)
  | matched (stmt : StmtId) (kind : String)
  | replaced (stmt replacement : StmtId)
  | fixedPoint (replacements traversals : Nat)
  | notConverging (stmt : StmtId) (limit : Nat)
  | passFinished (replacements traversals : Nat)
deriving DecidableEq, Repr

def Event.entry : Event → Entry
  | .erased stmt discarded =>
    ⟨.trace, "erased statement", [("stmt", toString stmt), ("discarded", toString discarded)]⟩
  | .matched stmt kind =>
    ⟨.trace, "statement matched", [("stmt", toString stmt), ("kind", kind)]⟩
  | .replaced stmt replacement =>
    ⟨.trace, "statement replaced",
      [("stmt", toString stmt), ("replacement", toString replacement)]⟩
  | .fixedPoint replacements traversals =>
    ⟨.debug, "reached fixed point",
      [("replacements", toString replacements), ("traversals", toString traversals)]⟩
  | .notConverging stmt limit =>
    ⟨.warn, "rewrite did not converge", [("stmt", toString stmt), ("limit", toString limit)]⟩
  | .passFinished replacements traversals =>
    ⟨.debug, "pass finished",
      [("replacements", toString replacements), ("traversals", toString traversals)]⟩

/-- A stretch of work that events happen in. -/
inductive Span where
  | rewriting (root : Node)
  | pass (name : String)
deriving DecidableEq, Repr

def Span.text : Span → String
  | .rewriting root => "replace_statements\x7broot=" ++ root.text ++ "\x7d"
  | .pass name => "pass\x7bname=" ++ name ++ "\x7d"

/-- An event with the spans around it, the outermost first. -/
structure Record where
  spans : List Span
  event : Event
deriving DecidableEq, Repr

/-- The spans, joined by colons, stand before the entry. -/
def Record.text (r : Record) : String :=
  match r.spans with
  | [] => r.event.entry.text
  | spans => String.intercalate ":" (spans.map Span.text) ++ " " ++ r.event.entry.text

/-! ## Logged computations -/

/-- A computation that reports events, and may end in a fault. -/
structure Logged (α : Type) where
  log : List Record
  result : Except Fault α

namespace Logged

variable {α β γ : Type}

/-- Reports nothing. -/
def ofExcept (x : Except Fault α) : Logged α := ⟨[], x⟩

/-- Reports one event. -/
def emit (e : Event) : Logged Unit := ⟨[⟨[], e⟩], .ok ()⟩

protected def bind (x : Logged α) (f : α → Logged β) : Logged β :=
  match x.result with
  | .error fault => ⟨x.log, .error fault⟩
  | .ok a => ⟨x.log ++ (f a).log, (f a).result⟩

instance : Monad Logged where
  pure a := ofExcept (.ok a)
  bind := Logged.bind

instance : MonadLift (Except Fault) Logged := ⟨ofExcept⟩

/-- Everything that the computation reports happened inside one more span. -/
def within (span : Span) (x : Logged α) : Logged α :=
  ⟨x.log.map fun r => { r with spans := span :: r.spans }, x.result⟩

/-! ### Laws -/

@[simp] theorem log_ofExcept (x : Except Fault α) : (ofExcept x).log = [] := rfl

@[simp] theorem result_ofExcept (x : Except Fault α) : (ofExcept x).result = x := rfl

theorem bind_of_ok {x : Logged α} {a : α} (h : x.result = .ok a) (f : α → Logged β) :
    x >>= f = ⟨x.log ++ (f a).log, (f a).result⟩ := by
  show Logged.bind x f = _
  simp [Logged.bind, h]

theorem bind_of_error {x : Logged α} {fault : Fault} (h : x.result = .error fault)
    (f : α → Logged β) : x >>= f = ⟨x.log, .error fault⟩ := by
  show Logged.bind x f = _
  simp [Logged.bind, h]

instance : LawfulMonad Logged := LawfulMonad.mk' Logged
  (by
    intro α x
    obtain ⟨log, result⟩ := x
    cases result <;> simp [Functor.map, Logged.bind, ofExcept])
  (by intro α β a f; rfl)
  (by
    intro α β γ x f g
    obtain ⟨log, result⟩ := x
    cases result with
    | error fault => rfl
    | ok a =>
      show Logged.bind (Logged.bind _ f) g = Logged.bind _ fun a => Logged.bind (f a) g
      simp only [Logged.bind]
      cases (f a).result <;> simp)

end Logged

end KernelIR
