import Mathlib.Data.UInt

/-!
# Base64

The encoding of bytes in the alphabet `A`-`Z`, `a`-`z`, `0`-`9`, `+`, `/` with padding, and a decoder that reads one character
at a time, keeps the bits it has not given out yet and skips every character outside the alphabet. The decoder gives back what
was encoded, from any state that is between two groups of four characters.
-/

namespace Base64

/-- The character of a value below 64. -/
def letter (n : Nat) : UInt8 :=
  if n < 26 then UInt8.ofNat (65 + n)
  else if n < 52 then UInt8.ofNat (71 + n)
  else if n < 62 then UInt8.ofNat (n - 4)
  else if n = 62 then 43
  else 47

/-- The character `=` that fills up the last group. -/
def padding : UInt8 := 61

/-- Three bytes are four characters; one or two bytes left over are filled up with padding. -/
def encode : List UInt8 → List UInt8
  | [] => []
  | [a] => [letter (a.toNat / 4), letter (a.toNat % 4 * 16), padding, padding]
  | [a, b] =>
    [letter (a.toNat / 4), letter (a.toNat % 4 * 16 + b.toNat / 16), letter (b.toNat % 16 * 4), padding]
  | a :: b :: c :: rest =>
    letter (a.toNat / 4) :: letter (a.toNat % 4 * 16 + b.toNat / 16) :: letter (b.toNat % 16 * 4 + c.toNat / 64) ::
      letter (c.toNat % 64) :: encode rest

/-- The value of a character; padding counts as zero, and a character outside the alphabet has none. -/
def rank (c : UInt8) : Option Nat :=
  if 65 ≤ c ∧ c ≤ 90 then some (c.toNat - 65)
  else if 97 ≤ c ∧ c ≤ 122 then some (c.toNat - 71)
  else if 48 ≤ c ∧ c ≤ 57 then some (c.toNat + 4)
  else if c = 43 then some 62
  else if c = 47 then some 63
  else if c = padding then some 0
  else none

/-- What the decoder keeps between two characters: the bits read so far (32 of them), how many characters of the group it has
read, and the last character read. -/
structure Decoder where
  bits : Nat
  count : Nat
  last : UInt8
deriving DecidableEq

/-- The decoder before its first character. -/
def Decoder.start : Decoder := ⟨0, 0, 0⟩

/-- One character: the next state and the bytes given out, none until the fourth character of a group. -/
def Decoder.step (d : Decoder) (c : UInt8) : Decoder × List UInt8 :=
  match rank c with
  | none => (d, [])
  | some r =>
    let bits := (d.bits * 64 + r) % 2 ^ 32
    if d.count + 1 = 4 then
      (⟨bits, 0, c⟩,
        UInt8.ofNat (bits / 65536) :: ((if d.last ≠ padding then [UInt8.ofNat (bits / 256)] else []) ++
          if c ≠ padding then [UInt8.ofNat bits] else []))
    else (⟨bits, d.count + 1, c⟩, [])

/-- The bytes given out over a text. -/
def Decoder.run : Decoder → List UInt8 → List UInt8
  | _, [] => []
  | d, c :: text => (d.step c).2 ++ Decoder.run (d.step c).1 text

/-- Decode a whole text. -/
def decode (text : List UInt8) : List UInt8 := Decoder.start.run text

/-! ## The alphabet -/

/-- The characters an encoded text is made of. -/
def InAlphabet (c : UInt8) : Prop := (∃ n, n < 64 ∧ c = letter n) ∨ c = padding

theorem rank_letter_all : ∀ n : Fin 64, rank (letter n) = some n.val := by decide

/-- A character has the value it was written for. -/
theorem rank_letter {n : Nat} (h : n < 64) : rank (letter n) = some n := rank_letter_all ⟨n, h⟩

theorem letter_ne_padding_all : ∀ n : Fin 64, letter n ≠ padding := by decide

/-- Padding is no character of a value. -/
theorem letter_ne_padding {n : Nat} (h : n < 64) : letter n ≠ padding := letter_ne_padding_all ⟨n, h⟩

theorem rank_padding : rank padding = some 0 := by decide

theorem InAlphabet.of_letter {n : Nat} (h : n < 64) : InAlphabet (letter n) := Or.inl ⟨n, h, rfl⟩

theorem InAlphabet.padding : InAlphabet padding := Or.inr rfl

/-- What holds of the 65 characters holds of every character of an encoded text. -/
theorem InAlphabet.forall {P : UInt8 → Prop} (hl : ∀ n : Fin 64, P (letter n)) (hp : P Base64.padding) {c : UInt8}
    (h : InAlphabet c) : P c := by
  rcases h with ⟨n, hn, rfl⟩ | rfl
  · exact hl ⟨n, hn⟩
  · exact hp

/-- An encoded text is made of characters of the alphabet. -/
theorem inAlphabet_of_mem_encode {bytes : List UInt8} {c : UInt8} (h : c ∈ encode bytes) : InAlphabet c := by
  induction bytes using encode.induct with
  | case1 => simp [encode] at h
  | case2 a =>
    have ha := a.toNat_lt
    simp only [encode, List.mem_cons, List.not_mem_nil, or_false] at h
    rcases h with rfl | rfl | rfl | rfl
    · exact .of_letter (by omega)
    · exact .of_letter (by omega)
    · exact .padding
    · exact .padding
  | case3 a b =>
    have ha := a.toNat_lt
    have hb := b.toNat_lt
    simp only [encode, List.mem_cons, List.not_mem_nil, or_false] at h
    rcases h with rfl | rfl | rfl | rfl
    · exact .of_letter (by omega)
    · exact .of_letter (by omega)
    · exact .of_letter (by omega)
    · exact .padding
  | case4 a b c rest ih =>
    have ha := a.toNat_lt
    have hb := b.toNat_lt
    have hc := c.toNat_lt
    simp only [encode, List.mem_cons] at h
    rcases h with rfl | rfl | rfl | rfl | h
    · exact .of_letter (by omega)
    · exact .of_letter (by omega)
    · exact .of_letter (by omega)
    · exact .of_letter (by omega)
    · exact ih h

/-! ## Decoding what was encoded -/

/-- A group of four characters: the three low bytes of their values are given out, the last two of them unless their
character is padding. -/
theorem run_group {d : Decoder} (hd : d.count = 0) {c₀ c₁ c₂ c₃ : UInt8} {r₀ r₁ r₂ r₃ : Nat} (h₀ : rank c₀ = some r₀)
    (h₁ : rank c₁ = some r₁) (h₂ : rank c₂ = some r₂) (h₃ : rank c₃ = some r₃) (rest : List UInt8) :
    ∃ d' : Decoder, d'.count = 0 ∧
      d.run (c₀ :: c₁ :: c₂ :: c₃ :: rest) =
        UInt8.ofNat (r₀ * 4 + (r₁ * 4096 + r₂ * 64 + r₃) / 65536) ::
          ((if c₂ ≠ padding then [UInt8.ofNat (r₁ * 16 + (r₂ * 64 + r₃) / 256)] else []) ++
            (if c₃ ≠ padding then [UInt8.ofNat (r₂ * 64 + r₃)] else [])) ++ d'.run rest := by
  have hbits : ∀ v : Nat, ((((v * 64 + r₀) % 2 ^ 32 * 64 + r₁) % 2 ^ 32 * 64 + r₂) % 2 ^ 32 * 64 + r₃) % 2 ^ 32 =
      (v * 16777216 + r₀ * 262144 + r₁ * 4096 + r₂ * 64 + r₃) % 4294967296 := by
    intro v
    omega
  have hhigh : UInt8.ofNat ((d.bits * 16777216 + r₀ * 262144 + r₁ * 4096 + r₂ * 64 + r₃) % 4294967296 / 65536) =
      UInt8.ofNat (r₀ * 4 + (r₁ * 4096 + r₂ * 64 + r₃) / 65536) := by
    rw [← UInt8.toNat_inj, UInt8.toNat_ofNat', UInt8.toNat_ofNat']
    omega
  have hmid : UInt8.ofNat ((d.bits * 16777216 + r₀ * 262144 + r₁ * 4096 + r₂ * 64 + r₃) % 4294967296 / 256) =
      UInt8.ofNat (r₁ * 16 + (r₂ * 64 + r₃) / 256) := by
    rw [← UInt8.toNat_inj, UInt8.toNat_ofNat', UInt8.toNat_ofNat']
    omega
  have hlow : UInt8.ofNat ((d.bits * 16777216 + r₀ * 262144 + r₁ * 4096 + r₂ * 64 + r₃) % 4294967296) =
      UInt8.ofNat (r₂ * 64 + r₃) := by
    rw [← UInt8.toNat_inj, UInt8.toNat_ofNat', UInt8.toNat_ofNat']
    omega
  refine ⟨⟨(d.bits * 16777216 + r₀ * 262144 + r₁ * 4096 + r₂ * 64 + r₃) % 4294967296, 0, c₃⟩, rfl, ?_⟩
  simp only [Decoder.run, Decoder.step, h₀, h₁, h₂, h₃, hd, Nat.reduceAdd, Nat.reduceEqDiff, if_true, if_false,
    List.nil_append, hbits, hhigh, hmid, hlow]

/-- A byte is what its eight bits make. -/
theorem ofNat_eq_of_mod {n : Nat} {b : UInt8} (h : n % 256 = b.toNat) : UInt8.ofNat n = b := by
  rw [← UInt8.toNat_inj, UInt8.toNat_ofNat']
  exact h

/-- Between two groups the decoder gives back what was encoded. -/
theorem run_encode (bytes : List UInt8) : ∀ d : Decoder, d.count = 0 → d.run (encode bytes) = bytes := by
  induction bytes using encode.induct with
  | case1 => intro d _; rfl
  | case2 a =>
    intro d hd
    have ha := a.toNat_lt
    obtain ⟨d', _, h⟩ := run_group hd (rank_letter (n := a.toNat / 4) (by omega))
      (rank_letter (n := a.toNat % 4 * 16) (by omega)) rank_padding rank_padding []
    rw [encode, h]
    simp only [ne_eq, not_true_eq_false, if_false, List.append_nil, Decoder.run]
    rw [ofNat_eq_of_mod (b := a) (by omega)]
  | case3 a b =>
    intro d hd
    have ha := a.toNat_lt
    have hb := b.toNat_lt
    obtain ⟨d', _, h⟩ := run_group hd (rank_letter (n := a.toNat / 4) (by omega))
      (rank_letter (n := a.toNat % 4 * 16 + b.toNat / 16) (by omega))
      (rank_letter (n := b.toNat % 16 * 4) (by omega)) rank_padding []
    rw [encode, h]
    simp only [ne_eq, letter_ne_padding (show b.toNat % 16 * 4 < 64 by omega), not_true_eq_false, not_false_eq_true,
      if_true, if_false, List.append_nil, Decoder.run]
    rw [ofNat_eq_of_mod (b := a) (by omega), ofNat_eq_of_mod (b := b) (by omega)]
  | case4 a b c rest ih =>
    intro d hd
    have ha := a.toNat_lt
    have hb := b.toNat_lt
    have hc := c.toNat_lt
    obtain ⟨d', hd', h⟩ := run_group hd (rank_letter (n := a.toNat / 4) (by omega))
      (rank_letter (n := a.toNat % 4 * 16 + b.toNat / 16) (by omega))
      (rank_letter (n := b.toNat % 16 * 4 + c.toNat / 64) (by omega))
      (rank_letter (n := c.toNat % 64) (by omega)) (encode rest)
    rw [encode, h, ih d' hd']
    simp only [ne_eq, letter_ne_padding (show b.toNat % 16 * 4 + c.toNat / 64 < 64 by omega),
      letter_ne_padding (show c.toNat % 64 < 64 by omega), not_false_eq_true, if_true, List.cons_append, List.nil_append]
    rw [ofNat_eq_of_mod (b := a) (by omega), ofNat_eq_of_mod (b := b) (by omega), ofNat_eq_of_mod (b := c) (by omega)]

/-- What the decoder gives out: at most three bytes for four characters of the alphabet. -/
theorem length_run_le (text : List UInt8) : ∀ d : Decoder, d.count < 4 →
    (d.run text).length ≤ 3 * ((d.count + text.countP fun c => (rank c).isSome) / 4) := by
  induction text with
  | nil => exact fun d _ => Nat.zero_le _
  | cons c text ih =>
    intro d hd
    rw [Decoder.run, List.length_append, List.countP_cons]
    unfold Decoder.step
    rcases hrank : rank c with _ | r
    · simpa using ih d hd
    · by_cases hfour : d.count + 1 = 4
      · have hrest := ih ⟨(d.bits * 64 + r) % 2 ^ 32, 0, c⟩ (by simp)
        have hthree : ∀ a b : List UInt8, a.length ≤ 1 → b.length ≤ 1 → (a ++ b).length + 1 ≤ 3 := by
          intro a b ha hb
          rw [List.length_append]
          omega
        have hgiven := hthree (if d.last ≠ padding then [UInt8.ofNat ((d.bits * 64 + r) % 2 ^ 32 / 256)] else [])
          (if c ≠ padding then [UInt8.ofNat ((d.bits * 64 + r) % 2 ^ 32)] else []) (by split <;> simp) (by split <;> simp)
        simp only [hfour, if_true, List.length_cons, Option.isSome_some] at hrest ⊢
        omega
      · have hrest := ih ⟨(d.bits * 64 + r) % 2 ^ 32, d.count + 1, c⟩ (show d.count + 1 < 4 by omega)
        simp only [hfour, if_false, List.length_nil, Option.isSome_some, if_true] at hrest ⊢
        omega

/-- Groups of four characters are encoded, the last of them for at least one byte. -/
theorem length_encode (bytes : List UInt8) : ∃ k, (encode bytes).length = 4 * k ∧ 3 * k < bytes.length + 3 := by
  induction bytes using encode.induct with
  | case1 => exact ⟨0, rfl, by simp⟩
  | case2 a => exact ⟨1, rfl, by simp⟩
  | case3 a b => exact ⟨1, rfl, by simp⟩
  | case4 a b c rest ih =>
    obtain ⟨k, hlength, hbound⟩ := ih
    refine ⟨k + 1, ?_, ?_⟩
    · simp only [encode, List.length_cons, hlength]
      omega
    · simp only [List.length_cons]
      omega

/-- A text with a character less than an encoded one gives out fewer bytes than were encoded. -/
theorem length_decode_lt {text bytes : List UInt8} (h : (text.countP fun c => (rank c).isSome) < (encode bytes).length) :
    (decode text).length < bytes.length := by
  obtain ⟨k, hlength, hbound⟩ := length_encode bytes
  have hrun := length_run_le text Decoder.start (by decide)
  simp only [Decoder.start, Nat.zero_add] at hrun
  rw [decode]
  simp only [Decoder.start]
  omega

/-- No more bytes are given out than the text has characters. -/
theorem length_decode_le (text : List UInt8) : (decode text).length ≤ text.length := by
  have hrun := length_run_le text Decoder.start (by decide)
  have hcount : (text.countP fun c => (rank c).isSome) ≤ text.length := List.countP_le_length
  simp only [Decoder.start, Nat.zero_add] at hrun
  rw [decode]
  simp only [Decoder.start]
  omega

/-- Characters outside the alphabet are passed over. -/
theorem decode_append_of_rank {skipped : List UInt8} (h : ∀ c ∈ skipped, rank c = none) (text : List UInt8) :
    decode (skipped ++ text) = decode text := by
  induction skipped with
  | nil => rfl
  | cons c skipped ih =>
    have hstep : Decoder.start.step c = (Decoder.start, []) := by rw [Decoder.step, h c List.mem_cons_self]
    have hrest := ih fun c hc => h c (List.mem_cons_of_mem _ hc)
    rw [decode] at hrest ⊢
    rw [List.cons_append, Decoder.run, hstep]
    exact hrest

/-- Decoding undoes encoding. -/
theorem decode_encode (bytes : List UInt8) : decode (encode bytes) = bytes := run_encode bytes Decoder.start rfl

end Base64
