import LobsterProxy.Base.Json

/-! The conversion error both frontends declare alike, with its `format!` text
kept as pieces: literal text, or a string shown with `{:?}`. -/

namespace Lobster

inductive Piece where
  | text (s : String)
  | debug (s : String)
  deriving DecidableEq, Repr

def debugOption : Option String → List Piece
  | some s => [.text "Some(", .debug s, .text ")"]
  | none => [.text "None"]

structure ProtocolError where
  message : List Piece
  deriving DecidableEq, Repr

abbrev Conversion (α : Type) := Except ProtocolError α

namespace Conversion

def invalid {α : Type} (message : List Piece) : Conversion α := .error ⟨message⟩

def orInvalid {α : Type} (value : Option α) (message : List Piece) : Conversion α :=
  match value with
  | some a => .ok a
  | none => invalid message

theorem bind_eq_ok {ε α β : Type} {x : Except ε α} {f : α → Except ε β} {b : β} :
    x >>= f = .ok b ↔ ∃ a, x = .ok a ∧ f a = .ok b := by
  cases x with
  | error e => simp [bind, Except.bind]
  | ok a => simp [bind, Except.bind]

theorem mapError_eq_ok {ε ε' α : Type} {x : Except ε α} {f : ε → ε'} {a : α} :
    x.mapError f = .ok a ↔ x = .ok a := by
  cases x with
  | error e => simp [Except.mapError]
  | ok b => simp [Except.mapError]

theorem orInvalid_eq_ok {α : Type} {value : Option α} {message : List Piece} {a : α} :
    orInvalid value message = .ok a ↔ value = some a := by
  cases value <;> simp [orInvalid, invalid]

theorem invalid_ne_ok {α : Type} {message : List Piece} {a : α} :
    (invalid message : Conversion α) ≠ .ok a := nofun

end Conversion

theorem mapM_eq_ok {α β : Type} {f : α → Conversion β} {xs : List α} {ys : List β} :
    xs.mapM f = .ok ys ↔ List.Forall₂ (fun x y => f x = .ok y) xs ys := by
  induction xs generalizing ys with
  | nil =>
    rw [List.mapM_nil]
    constructor
    · intro h
      cases h
      exact .nil
    · intro h
      cases h
      rfl
  | cons x xs ih =>
    rw [List.mapM_cons, Conversion.bind_eq_ok]
    constructor
    · rintro ⟨y, hy, h⟩
      obtain ⟨zs, hzs, h⟩ := Conversion.bind_eq_ok.mp h
      cases h
      exact .cons hy (ih.mp hzs)
    · intro h
      cases h with
      | cons hy hrest =>
        exact ⟨_, hy, Conversion.bind_eq_ok.mpr ⟨_, ih.mpr hrest, rfl⟩⟩

end Lobster
