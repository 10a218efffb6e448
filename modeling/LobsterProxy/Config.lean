import LobsterProxy.Base.Utf8

/-! The server secret of the configuration: pairs of hex digits are decoded, any other text
is taken for its bytes. -/

namespace Lobster.Config
open Text

/-- What comes after so many bytes; there is none inside a character. -/
def dropBytes : Nat → List Char → Option (List Char)
  | 0, text => some text
  | _ + 1, [] => none
  | n + 1, c :: rest => if c.utf8Size ≤ n + 1 then dropBytes (n + 1 - c.utf8Size) rest else none

def takeBytes : Nat → List Char → Option (List Char)
  | 0, _ => some []
  | _ + 1, [] => none
  | n + 1, c :: rest =>
    if c.utf8Size ≤ n + 1 then (takeBytes (n + 1 - c.utf8Size) rest).map (c :: ·) else none

/-- A slice of a text by byte positions, which panics at one that is no boundary. -/
def slice (text : List Char) (start stop : Nat) : Option (List Char) :=
  (dropBytes start text).bind (takeBytes (stop - start))

def toDigit (c : Char) : Option Nat :=
  if 48 ≤ c.toNat ∧ c.toNat ≤ 57 then some (c.toNat - 48)
  else if 97 ≤ c.toNat ∧ c.toNat ≤ 102 then some (c.toNat - 87)
  else if 65 ≤ c.toNat ∧ c.toNat ≤ 70 then some (c.toNat - 55)
  else none

def fromStrRadix (src : List Char) : Option Nat :=
  if src = [] ∨ src = ['+'] ∨ src = ['-'] then none
  else
    -- a plus sign is passed over, also before digits of an unsigned type
    let digits := if src.head? = some '+' then src.tail else src
    digits.foldlM (fun value c => (toDigit c).bind fun digit =>
      if value * 16 + digit < 256 then some (value * 16 + digit) else none) 0

/-- The bytes at these places, up to the first pair that does not parse; `none` is a panic. -/
def collectPairs (text : List Char) : List Nat → Option (Except Unit (List UInt8))
  | [] => some (.ok [])
  | i :: places =>
    match slice text i (i + 2) with
    | none => none
    | some pair =>
      match fromStrRadix pair with
      | none => some (.error ())
      | some value => (collectPairs text places).map fun bytes => bytes.map (UInt8.ofNat value :: ·)

def decodeHex (text : List Char) : Option (Except Unit (List UInt8)) :=
  if len text % 2 ≠ 0 then some (.error ()) else collectPairs text (List.range' 0 (len text / 2) 2)

/-- The key is drawn at random when no secret is configured; `none` is a panic. -/
def serverSecret (secret : Option String) (key : List UInt8) : Option (List UInt8) :=
  match secret with
  | none => some key
  | some secret =>
    let trimmed := trim secret.toList
    match decodeHex trimmed with
    | none => none
    | some (.ok bytes) => some (if 16 ≤ bytes.length then bytes else toUtf8 trimmed)
    | some (.error _) => some (toUtf8 trimmed)

section Reading
variable {text rest : List Char}

theorem dropBytes_add {m : Nat} (n : Nat) (h : dropBytes m text = some rest) :
    dropBytes (m + n) text = dropBytes n rest := by
  induction text generalizing m with
  | nil =>
    cases m with
    | zero =>
      cases h
      rw [Nat.zero_add]
    | succ m => cases h
  | cons c more ih =>
    cases m with
    | zero =>
      cases h
      rw [Nat.zero_add]
    | succ m =>
      have hpos := c.utf8Size_pos
      rw [dropBytes] at h
      split_ifs at h with hsize
      have hplace : m + 1 - c.utf8Size + n = m + n + 1 - c.utf8Size := by omega
      rw [Nat.succ_add, dropBytes, if_pos (by omega), ← hplace]
      exact ih h

theorem toDigit_bound {c : Char} {digit : Nat} (h : toDigit c = some digit) :
    digit < 16 ∧ c.utf8Size = 1 := by
  have hsize (hc : c.toNat ≤ 127) : c.utf8Size = 1 :=
    Char.utf8Size_eq_one_iff.mpr (UInt32.le_iff_toNat_le.mpr hc)
  unfold toDigit at h
  split_ifs at h <;> cases h <;> refine ⟨by omega, hsize (by omega)⟩

def isHexDigit (c : Char) : Bool := (toDigit c).isSome

def digitValue (c : Char) : Nat := (toDigit c).getD 0

theorem utf8Size_of_isHexDigit {c : Char} (h : isHexDigit c = true) : c.utf8Size = 1 := by
  obtain ⟨digit, hdigit⟩ := Option.isSome_iff_exists.mp h
  exact (toDigit_bound hdigit).2

/-- Two characters that the program's parser reads as a byte. -/
def parsesAsByte (c d : Char) : Bool := (isHexDigit c || c = '+') && isHexDigit d

theorem fromStrRadix_pair (c d : Char) : fromStrRadix [c, d] =
    if parsesAsByte c d then some (digitValue c * 16 + digitValue d) else none := by
  have hplus : toDigit '+' = none := by decide
  unfold fromStrRadix parsesAsByte isHexDigit digitValue
  rw [if_neg (by simp)]
  by_cases hc : c = '+'
  · subst hc
    rcases hd : toDigit d with _ | digit
    · simp [hd]
    · have hbound := (toDigit_bound hd).1
      have hbyte : digit < 256 := by omega
      simp [hd, hplus, hbyte]
  · rcases hhigh : toDigit c with _ | high
    · simp [hc, hhigh]
    · have hbound := (toDigit_bound hhigh).1
      have hbyte : high < 256 := by omega
      rcases hd : toDigit d with _ | digit
      · simp [hc, hhigh, hd, hbyte]
      · have hbound' := (toDigit_bound hd).1
        have hbyte' : high * 16 + digit < 256 := by omega
        simp [hc, hhigh, hd, hbyte, hbyte']

theorem fromStrRadix_wide {c : Char} (h : c.utf8Size ≠ 1) : fromStrRadix [c] = none := by
  have hdigit : toDigit c = none := by
    rcases hc : toDigit c with _ | digit
    · rfl
    · exact absurd (toDigit_bound hc).2 h
  have hplus : c ≠ '+' := by
    rintro rfl
    exact h (by decide)
  unfold fromStrRadix
  by_cases hminus : c = '-'
  · simp [hminus]
  · simp [hplus, hminus, hdigit]

/-- The text past the pairs at its start that parse. -/
def afterPairs : List Char → List Char
  | c :: d :: rest => if parsesAsByte c d then afterPairs rest else c :: d :: rest
  | text => text

def pairBytes : List Char → List UInt8
  | c :: d :: rest => UInt8.ofNat (digitValue c * 16 + digitValue d) :: pairBytes rest
  | _ => []

/-- The second byte is not the last one of a character. -/
def straddles : List Char → Bool
  | [] => false
  | c :: rest => 2 < c.utf8Size || (c.utf8Size = 1 && rest.head?.any fun d => 1 < d.utf8Size)

theorem takeBytes_two (c : Char) (rest : List Char) : takeBytes 2 (c :: rest) =
    if c.utf8Size = 1 then (takeBytes 1 rest).map (c :: ·)
      else if c.utf8Size = 2 then some [c] else none := by
  have hpos := c.utf8Size_pos
  rw [takeBytes]
  by_cases hone : c.utf8Size = 1
  · simp [hone]
  · by_cases htwo : c.utf8Size = 2
    · simp [htwo, takeBytes]
    · rw [if_neg (by omega), if_neg hone, if_neg htwo]

theorem takeBytes_one (d : Char) (rest : List Char) :
    takeBytes 1 (d :: rest) = if d.utf8Size = 1 then some [d] else none := by
  have hpos := d.utf8Size_pos
  rw [takeBytes]
  by_cases hone : d.utf8Size = 1
  · simp [hone, takeBytes]
  · rw [if_neg (by omega), if_neg hone]

theorem len_cons (c : Char) (rest : List Char) : len (c :: rest) = c.utf8Size + len rest := by
  simp [len]

theorem parsesAsByte_narrow {c d : Char} (h : parsesAsByte c d = true) :
    c.utf8Size = 1 ∧ d.utf8Size = 1 := by
  unfold parsesAsByte at h
  simp only [Bool.and_eq_true, Bool.or_eq_true, decide_eq_true_eq] at h
  refine ⟨?_, utf8Size_of_isHexDigit h.2⟩
  rcases h.1 with hc | rfl
  · exact utf8Size_of_isHexDigit hc
  · decide

theorem afterPairs_wide {c : Char} (h : c.utf8Size ≠ 1) (rest : List Char) :
    afterPairs (c :: rest) = c :: rest := by
  rcases rest with _ | ⟨d, rest⟩
  · rfl
  · rw [afterPairs, if_neg]
    intro hpair
    exact h (parsesAsByte_narrow hpair).1

/-- The pairs are read up to the first that does not parse; what stands there fails or panics. -/
theorem collectPairs_eq (n : Nat) (place : Nat) (hrest : dropBytes place text = some rest)
    (hlen : len rest = 2 * n) : collectPairs text (List.range' place n 2) =
      if afterPairs rest = [] then some (.ok (pairBytes rest))
      else if straddles (afterPairs rest) then none else some (.error ()) := by
  induction n generalizing place rest with
  | zero =>
    rcases rest with _ | ⟨c, rest⟩
    · rfl
    · have hpos := c.utf8Size_pos
      rw [len_cons] at hlen
      omega
  | succ n ih =>
    rcases rest with _ | ⟨c, rest⟩
    · cases hlen
    · have hslice : slice text place (place + 2) = takeBytes 2 (c :: rest) := by
        unfold slice
        rw [hrest, Nat.add_sub_cancel_left]
        rfl
      rw [List.range'_succ, collectPairs, hslice]
      rw [len_cons] at hlen
      by_cases hc : c.utf8Size = 1
      · rcases rest with _ | ⟨d, rest⟩
        · simp [hc, len] at hlen
          omega
        · rw [takeBytes_two, if_pos hc, takeBytes_one]
          rw [len_cons, hc] at hlen
          by_cases hd : d.utf8Size = 1
          · rw [if_pos hd]
            have hnext : dropBytes (place + 2) text = some rest := by
              rw [dropBytes_add 2 hrest]
              simp [dropBytes, hc, hd]
            have hrun := ih (place + 2) hnext (by omega)
            simp only [Option.map_some, fromStrRadix_pair]
            by_cases hpair : parsesAsByte c d = true
            · rw [afterPairs, if_pos hpair, if_pos hpair, hrun]
              dsimp only
              split_ifs <;> rfl
            · have hready : ¬ straddles (c :: d :: rest) = true := by simp [straddles, hc, hd]
              rw [afterPairs, if_neg hpair, if_neg hpair, if_neg (List.cons_ne_nil _ _),
                if_neg hready]
          · have hpair : ¬ parsesAsByte c d = true := fun hpair => hd (parsesAsByte_narrow hpair).2
            have hpos := d.utf8Size_pos
            have hstraddled : straddles (c :: d :: rest) = true := by
              simp [straddles, hc]
              omega
            rw [afterPairs, if_neg hpair, if_neg (List.cons_ne_nil _ _), if_pos hstraddled,
              if_neg hd]
            rfl
      · have hpos := c.utf8Size_pos
        rw [afterPairs_wide hc, if_neg (List.cons_ne_nil _ _), takeBytes_two, if_neg hc]
        by_cases htwo : c.utf8Size = 2
        · simp [straddles, htwo, fromStrRadix_wide hc]
        · have hthree : 2 < c.utf8Size := by omega
          simp [straddles, htwo, hthree]

theorem decodeHex_eq (text : List Char) : decodeHex text =
    if len text % 2 ≠ 0 then some (.error ())
    else if afterPairs text = [] then some (.ok (pairBytes text))
    else if straddles (afterPairs text) then none else some (.error ()) := by
  unfold decodeHex
  split_ifs with hodd hpairs hstraddled
  · rfl
  all_goals
    have hstart : dropBytes 0 text = some text := by cases text <;> rfl
    have hwhole := collectPairs_eq (len text / 2) 0 hstart (by omega)
    rw [hwhole]
    simp [*]

end Reading

section Secret
variable {text : List Char}

/-- Hex digits in pairs, for sixteen bytes at least. -/
def IsHexKey (text : List Char) : Prop :=
  (∀ c ∈ text, isHexDigit c = true) ∧ text.length % 2 = 0 ∧ 32 ≤ text.length

instance (text : List Char) : Decidable (IsHexKey text) := inferInstanceAs (Decidable (_ ∧ _))

def keyOf (text : List Char) : List UInt8 := if IsHexKey text then pairBytes text else toUtf8 text

/-- A text that is decoded with a sign in it, or cut inside a character. -/
def Misread (text : List Char) : Prop :=
  len text % 2 = 0 ∧
    if afterPairs text = [] then '+' ∈ text ∧
    32 ≤ text.length else straddles (afterPairs text) = true

instance (text : List Char) : Decidable (Misread text) := inferInstanceAs (Decidable (_ ∧ _))

theorem afterPairs_nil (h : afterPairs text = []) :
    (pairBytes text).length * 2 = text.length ∧ ∀ c ∈ text, c = '+' ∨ isHexDigit c = true := by
  induction text using afterPairs.induct with
  | case1 c d rest hpair ih =>
    rw [afterPairs, if_pos hpair] at h
    obtain ⟨hlength, hchars⟩ := ih h
    unfold parsesAsByte at hpair
    simp only [Bool.and_eq_true, Bool.or_eq_true, decide_eq_true_eq] at hpair
    refine ⟨by simp only [pairBytes, List.length_cons]; omega, ?_⟩
    intro x hx
    rcases List.mem_cons.mp hx with rfl | hx
    · exact hpair.1.symm
    · rcases List.mem_cons.mp hx with rfl | hx
      · exact .inr hpair.2
      · exact hchars x hx
  | case2 c d rest hpair =>
    rw [afterPairs, if_neg hpair] at h
    cases h
  | case3 text hshort =>
    rw [afterPairs.eq_2 _ hshort] at h
    subst h
    simp [pairBytes]

theorem afterPairs_of_hex (hhex : ∀ c ∈ text, isHexDigit c = true) (heven : text.length % 2 = 0) :
    afterPairs text = [] := by
  induction text using afterPairs.induct with
  | case1 c d rest hpair ih =>
    rw [afterPairs, if_pos hpair]
    apply ih
    · intro x hx
      exact hhex x (by simp [hx])
    · simp only [List.length_cons] at heven
      omega
  | case2 c d rest hpair =>
    have hc := hhex c (by simp)
    have hd := hhex d (by simp)
    exact absurd (by simp [parsesAsByte, hc, hd]) hpair
  | case3 text hshort =>
    rw [afterPairs.eq_2 _ hshort]
    rcases text with _ | ⟨c, _ | ⟨d, rest⟩⟩
    · rfl
    · simp at heven
    · exact absurd rfl (hshort c d rest)

theorem len_of_hex (hhex : ∀ c ∈ text, isHexDigit c = true) : len text = text.length := by
  induction text with
  | nil => rfl
  | cons c rest ih =>
    have hc := utf8Size_of_isHexDigit (hhex c List.mem_cons_self)
    have hrest := ih fun d hd => hhex d (List.mem_cons_of_mem c hd)
    rw [len_cons, hc, hrest, List.length_cons, Nat.add_comm]

/-- The secret is what it stands for unless the parser of pairs is misled. -/
theorem serverSecret_iff (secret : String) (key : List UInt8) :
    serverSecret (some secret) key = some (keyOf (trim secret.toList)) ↔
      ¬ Misread (trim secret.toList) := by
  unfold serverSecret
  dsimp only
  generalize trim secret.toList = text
  unfold keyOf Misread
  rw [decodeHex_eq]
  by_cases hodd : len text % 2 ≠ 0
  · have hkey : ¬ IsHexKey text := by
      rintro ⟨hhex, heven, -⟩
      rw [len_of_hex hhex] at hodd
      exact hodd heven
    simp [hodd, hkey]
  · have heven : len text % 2 = 0 := by omega
    rw [if_neg hodd]
    by_cases hpairs : afterPairs text = []
    · obtain ⟨hlength, hchars⟩ := afterPairs_nil hpairs
      by_cases hshort : text.length < 32
      · have hkey : ¬ IsHexKey text := fun hkey => absurd hkey.2.2 (by omega)
        have hfew : ¬ 16 ≤ (pairBytes text).length := by omega
        simp [hpairs, hkey, hfew, hshort]
      · have hmany : 16 ≤ (pairBytes text).length := by omega
        by_cases hplus : '+' ∈ text
        · have hkey : ¬ IsHexKey text := fun hkey => absurd (hkey.1 '+' hplus) (by decide)
          -- the decoded bytes are half as many as the characters
          have hne : pairBytes text ≠ toUtf8 text := by
            intro heq
            have hlong := length_le_toUtf8 text
            rw [← heq] at hlong
            omega
          simp [hpairs, hkey, hmany, hplus, hne, heven]
          omega
        · have hkey : IsHexKey text := by
            refine ⟨?_, by omega, by omega⟩
            intro c hc
            rcases hchars c hc with rfl | hhex
            · exact absurd hc hplus
            · exact hhex
          simp [hpairs, hkey, hmany, hplus]
    · have hkey : ¬ IsHexKey text := fun hkey => hpairs (afterPairs_of_hex hkey.1 hkey.2.1)
      by_cases hstraddles : straddles (afterPairs text) =
      true <;> simp [hpairs, hkey, hstraddles, heven]

/-- A secret of two wide characters stops the program, and signs are taken for zeros. -/
theorem serverSecret_misread :
    (∀ key, serverSecret (some "密钥") key = none) ∧
      ∀ key, serverSecret (some "+0+1+2+3+4+5+6+7+8+9+a+b+c+d+e+f") key =
        some [0, 1, 2, 3, 4, 5, 6, 7, 8, 9, 10, 11, 12, 13, 14, 15] := by
  have hkey (secret : String) (key : List UInt8) : serverSecret (some secret) key =
      serverSecret (some secret) [] := rfl
  constructor
  all_goals
    intro key
    rw [hkey]
    decide +kernel

end Secret

end Lobster.Config
