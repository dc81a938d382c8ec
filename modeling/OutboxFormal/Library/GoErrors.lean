import Mathlib.Data.List.Basic

/-!
# Go error trees

An error value is a leaf, a leaf text, a wrapper around one error, a typed
wrapper carrying data, or a pair of errors. `errors.Is` and `errors.As` walk
the tree depth first; `errors.Join` drops nil arguments. A nil `error` is
`none`.
-/

namespace OutboxFormal.Library

/-- `σ` are the comparable leaf errors and `δ` the data of typed wrappers. -/
inductive GoError (σ δ : Type) where
  | leaf (value : σ)
  | text (message : String)
  | wrap (before : String) (inner : GoError σ δ) (after : String)
  | mark (data : δ) (inner : GoError σ δ)
  | both (first : GoError σ δ) (between : String) (second : GoError σ δ)
  deriving DecidableEq, Repr

namespace GoError

variable {σ δ β : Type}

/-- The text `Error()` returns. -/
def message (leafText : σ → String) (markText : δ → String → String) :
    GoError σ δ → String
  | .leaf value => leafText value
  | .text message => message
  | .wrap before inner after => before ++ inner.message leafText markText ++ after
  | .mark data inner => markText data (inner.message leafText markText)
  | .both first between second =>
    first.message leafText markText ++ between ++ second.message leafText markText

/-- `errors.Is` against a comparable leaf. -/
def is [DecidableEq σ] (target : σ) : GoError σ δ → Bool
  | .leaf value => value = target
  | .text _ => false
  | .wrap _ inner _ => inner.is target
  | .mark _ inner => inner.is target
  | .both first _ second => first.is target || second.is target

/-- `errors.As` for leaf errors: the first leaf, depth first, that fits. -/
def findLeaf (fits : σ → Option β) : GoError σ δ → Option β
  | .leaf value => fits value
  | .text _ => none
  | .wrap _ inner _ => inner.findLeaf fits
  | .mark _ inner => inner.findLeaf fits
  | .both first _ second => (first.findLeaf fits).or (second.findLeaf fits)

/-- `errors.As` for typed wrappers: the first wrapper, depth first, that fits. -/
def findMark (fits : δ → Option β) : GoError σ δ → Option β
  | .leaf _ => none
  | .text _ => none
  | .wrap _ inner _ => inner.findMark fits
  | .mark data inner => (fits data).or (inner.findMark fits)
  | .both first _ second => (first.findMark fits).or (second.findMark fits)

/-- The data of the typed wrappers, in the order `errors.As` meets them. -/
def marks : GoError σ δ → List δ
  | .leaf _ => []
  | .text _ => []
  | .wrap _ inner _ => inner.marks
  | .mark data inner => data :: inner.marks
  | .both first _ second => first.marks ++ second.marks

/-- `errors.As` finds the first wrapper of the tree that fits. -/
theorem findMark_eq_findSome? (fits : δ → Option β) (error : GoError σ δ) :
    error.findMark fits = error.marks.findSome? fits := by
  induction error with
  | leaf value => rfl
  | text message => rfl
  | wrap before inner after ih => exact ih
  | mark data inner ih =>
    rw [findMark, marks, ih, List.findSome?_cons]
    cases fits data <;> rfl
  | both first between second hfirst hsecond =>
    rw [findMark, marks, hfirst, hsecond, List.findSome?_append]

/-! ## `errors.Join` -/

/-- `errors.Join`: nil arguments are dropped, and no argument left is nil. -/
def join : List (Option (GoError σ δ)) → Option (GoError σ δ)
  | [] => none
  | none :: rest => join rest
  | some error :: rest =>
    match join rest with
    | none => some (.wrap "" error "")
    | some others => some (.both error "\n" others)

/-- `errors.Join` of two errors. -/
def joinTwo (first second : GoError σ δ) : GoError σ δ := .both first "\n" (.wrap "" second "")

theorem join_eq_none_iff {errors : List (Option (GoError σ δ))} :
    join errors = none ↔ ∀ error ∈ errors, error = none := by
  induction errors with
  | nil => simp [join]
  | cons error rest ih =>
    cases error with
    | none => simpa [join] using ih
    | some error =>
      simp only [join, List.mem_cons, forall_eq_or_imp, reduceCtorEq, false_and, iff_false]
      cases join rest <;> simp

/-- `errors.Is` on a possibly nil error. -/
def errorsIs [DecidableEq σ] (error : Option (GoError σ δ)) (target : σ) : Bool :=
  error.any (GoError.is target)

@[simp]
theorem errorsIs_some [DecidableEq σ] (error : GoError σ δ) (target : σ) :
    errorsIs (some error) target = error.is target := rfl

end GoError

end OutboxFormal.Library
