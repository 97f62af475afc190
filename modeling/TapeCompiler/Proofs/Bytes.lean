import TapeCompiler.Text.Encoding

/-!
# Bytes and characters

Two facts on UTF-8 that hold for every byte string and every text.  An ASCII
byte is always a piece of its own: whatever is wrong around it, no sequence
takes it in, and no sequence of other bytes is read as an ASCII character
(`firstPiece_cases`).  And what is written is read back (`decodeWith_encode`).
-/

namespace TapeCompiler
namespace Text
namespace Utf8

/-! ### Pieces -/

/-- The bytes that continue a character follow its first byte, and none of them
is ASCII. -/
theorem continuation_spec (count : Nat) {low : UInt8} (high : UInt8) (rest : List UInt8)
    (hlow : 0x80 ≤ low) :
    continuation count low high rest = rest.take (continuation count low high rest).length ∧
      ∀ byte ∈ continuation count low high rest, 0x80 ≤ byte := by
  induction rest generalizing count low high with
  | nil =>
      cases count with
      | zero => exact ⟨rfl, nofun⟩
      | succ count => exact ⟨rfl, nofun⟩
  | cons byte rest ih =>
      cases count with
      | zero => exact ⟨rfl, nofun⟩
      | succ count =>
          rw [continuation]
          split
          · rename_i hbounds
            obtain ⟨htake, hbytes⟩ := ih count 0xBF (UInt8.le_refl 0x80)
            refine ⟨?_, List.forall_mem_cons.mpr ⟨UInt8.le_trans hlow hbounds.1, hbytes⟩⟩
            rw [List.length_cons, List.take_succ_cons, ← htake]
          · exact ⟨rfl, nofun⟩

theorem bounds_of_continuation {count : Nat} {low high byte : UInt8} {rest behind : List UInt8}
    (hbytes : continuation count low high rest = byte :: behind) : low ≤ byte ∧ byte ≤ high := by
  cases count with
  | zero => cases hbytes
  | succ count =>
      cases rest with
      | nil => cases hbytes
      | cons first rest =>
          rw [continuation] at hbytes
          split at hbytes
          · rename_i hbounds
            rw [← (List.cons.inj hbytes).1]
            exact hbounds
          · cases hbytes

/-- What a first byte says: how many bytes follow it, by the range it is in, and
the bounds of the first of them, which lie above ASCII. -/
theorem lead_cases {byte low high : UInt8} {count : Nat}
    (hlead : lead? byte = some (count, low, high)) :
    (0x80 ≤ low.toNat ∧ high.toNat ≤ 0xBF) ∧
    ((count = 1 ∧ 0xC2 ≤ byte.toNat ∧ byte.toNat < 0xE0) ∨
    (count = 2 ∧ 0xE0 ≤ byte.toNat ∧ byte.toNat < 0xF0 ∧
      (byte.toNat = 0xE0 → 0xA0 ≤ low.toNat)) ∨
    (count = 3 ∧ 0xF0 ≤ byte.toNat ∧ byte.toNat < 0xF5 ∧
      (byte.toNat = 0xF0 → 0x90 ≤ low.toNat))) := by
  unfold lead? at hlead
  simp only [UInt8.lt_iff_toNat_lt, ← UInt8.toNat_inj, UInt8.reduceToNat] at hlead
  repeat' split at hlead
  all_goals cases hlead
  all_goals refine ⟨by decide, ?_⟩
  all_goals simp only [UInt8.reduceToNat, true_and]
  all_goals omega

/-- What the data bits of several bytes come to. -/
def value (byte : UInt8) (following : List UInt8) : Nat :=
  following.foldl (fun total next => total * 64 + next.toNat % 64) (leadBits following.length byte)

/-- A character of several bytes is none of ASCII: the bounds leave no room for
a sequence that is longer than it need be. -/
theorem le_value {byte low high : UInt8} {count : Nat} {rest : List UInt8}
    (hlead : lead? byte = some (count, low, high))
    (hlength : (continuation count low high rest).length = count) :
    0x80 ≤ value byte (continuation count low high rest) := by
  obtain ⟨⟨-, hhigh⟩, hcases⟩ := lead_cases hlead
  cases hfollowing : continuation count low high rest with
  | nil =>
      rw [hfollowing, List.length_nil] at hlength
      omega
  | cons next behind =>
      obtain ⟨hlow, hnext⟩ := bounds_of_continuation hfollowing
      rw [UInt8.le_iff_toNat_le] at hlow hnext
      rw [hfollowing, List.length_cons] at hlength
      rcases hcases with ⟨rfl, hlower, hupper⟩ | ⟨rfl, hlower, hupper, hfirst⟩ |
        ⟨rfl, hlower, hupper, hfirst⟩
      · obtain rfl : behind = [] := List.length_eq_zero_iff.mp (Nat.succ.inj hlength)
        simp only [value, leadBits, List.foldl_cons, List.foldl_nil, List.length_singleton]
        omega
      · obtain ⟨last, rfl⟩ := List.length_eq_one_iff.mp (Nat.succ.inj hlength)
        simp only [value, leadBits, List.foldl_cons, List.foldl_nil, List.length_cons,
          List.length_nil]
        omega
      · match behind, hlength with
        | [third, last], _ =>
            simp only [value, leadBits, List.foldl_cons, List.foldl_nil, List.length_cons,
              List.length_nil]
            omega

/-- A piece starts with an ASCII byte and is that character, or it is made of
other bytes only and is ill-formed or a character beyond ASCII. -/
theorem firstPiece_cases (byte : UInt8) (rest : List UInt8) :
    (byte < 0x80 ∧ firstPiece byte rest = (.character (Char.ofNat byte.toNat), 0)) ∨
    (0x80 ≤ byte ∧ (∀ next ∈ rest.take (firstPiece byte rest).2, 0x80 ≤ next) ∧
      ∀ c, (firstPiece byte rest).1 = .character c → ∃ code, 0x80 ≤ code ∧ c = Char.ofNat code) := by
  rw [firstPiece]
  split
  · rename_i hascii
    exact .inl ⟨hascii, rfl⟩
  · rename_i hother
    refine .inr ⟨UInt8.not_lt.mp hother, ?_⟩
    split
    · exact ⟨nofun, nofun⟩
    · rename_i count low high hlead
      have hlow : 0x80 ≤ low := UInt8.le_iff_toNat_le.mpr (lead_cases hlead).1.1
      obtain ⟨htake, hbytes⟩ := continuation_spec count high rest hlow
      dsimp only
      split
      · rename_i hlength
        rw [hlength] at htake
        rw [htake] at hbytes
        refine ⟨hbytes, fun c hc => ?_⟩
        exact ⟨_, le_value hlead hlength, (Piece.character.inj hc).symm⟩
      · split
        · exact ⟨htake ▸ hbytes, nofun⟩
        · exact ⟨htake ▸ hbytes, nofun⟩

/-! ### Encoded text -/

/-- The first bytes of well-formed characters, each with the bounds that the byte
behind it keeps to. -/
theorem lead_of_bounds {byte next : UInt8} {count : Nat}
    (hnext : 0x80 ≤ next.toNat ∧ next.toNat ≤ 0xBF)
    (hbyte : (count = 1 ∧ 0xC2 ≤ byte.toNat ∧ byte.toNat < 0xE0) ∨
      (count = 2 ∧ 0xE0 ≤ byte.toNat ∧ byte.toNat < 0xF0 ∧
        (byte.toNat = 0xE0 → 0xA0 ≤ next.toNat) ∧ (byte.toNat = 0xED → next.toNat ≤ 0x9F)) ∨
      (count = 3 ∧ 0xF0 ≤ byte.toNat ∧ byte.toNat < 0xF5 ∧
        (byte.toNat = 0xF0 → 0x90 ≤ next.toNat) ∧ (byte.toNat = 0xF4 → next.toNat ≤ 0x8F))) :
    ∃ low high, lead? byte = some (count, low, high) ∧ low ≤ next ∧ next ≤ high := by
  unfold lead?
  simp only [UInt8.lt_iff_toNat_lt, UInt8.le_iff_toNat_le, ← UInt8.toNat_inj, UInt8.reduceToNat]
  repeat' split
  all_goals first
    | (exfalso; omega)
    | (obtain rfl : count = 1 := by omega
       exact ⟨_, _, rfl, by simp only [UInt8.reduceToNat]; omega⟩)
    | (obtain rfl : count = 2 := by omega
       exact ⟨_, _, rfl, by simp only [UInt8.reduceToNat]; omega⟩)
    | (obtain rfl : count = 3 := by omega
       exact ⟨_, _, rfl, by simp only [UInt8.reduceToNat]; omega⟩)

/-- Bytes that may continue a character do, whatever is behind them. -/
theorem continuation_append {low high next : UInt8} {more : List UInt8}
    (hnext : low ≤ next ∧ next ≤ high) (hmore : ∀ byte ∈ more, 0x80 ≤ byte ∧ byte ≤ 0xBF)
    (rest : List UInt8) :
    continuation (next :: more).length low high (next :: more ++ rest) = next :: more := by
  induction more generalizing low high next with
  | nil =>
      rw [List.length_cons, List.cons_append, continuation, if_pos hnext]
      rfl
  | cons second more ih =>
      obtain ⟨hsecond, hmore⟩ := List.forall_mem_cons.mp hmore
      rw [List.length_cons, List.cons_append, continuation, if_pos hnext, ih hsecond hmore]

theorem piecesFrom_append (bytes rest : List UInt8) :
    piecesFrom bytes.length (bytes ++ rest) = piecesFrom 0 rest := by
  induction bytes with
  | nil => rfl
  | cons byte bytes ih => exact ih

/-- A first byte and bytes that may continue it are a character. -/
theorem piecesFrom_character {byte next : UInt8} {more : List UInt8}
    (hbyte : ∃ low high, lead? byte = some ((next :: more).length, low, high) ∧
      low ≤ next ∧ next ≤ high)
    (hmore : ∀ byte ∈ more, 0x80 ≤ byte ∧ byte ≤ 0xBF) (rest : List UInt8) :
    piecesFrom 0 (byte :: next :: more ++ rest) =
      .character (assembleChar byte (next :: more)) :: piecesFrom 0 rest := by
  obtain ⟨low, high, hlead, hnext⟩ := hbyte
  have hcases := (lead_cases hlead).2
  have hascii : ¬ byte < 0x80 := by
    simp only [UInt8.lt_iff_toNat_lt, UInt8.reduceToNat]
    omega
  rw [List.cons_append, piecesFrom, firstPiece, if_neg hascii, hlead]
  dsimp only
  rw [continuation_append hnext hmore, if_pos rfl]
  dsimp only
  rw [piecesFrom_append]

theorem toNat_trailing (code : Nat) : (UInt8.ofNat (code % 64 + 128)).toNat = code % 64 + 128 :=
  UInt8.toNat_ofNat_of_lt (by show _ < 256; omega)

theorem trailing_bounds (code : Nat) :
    0x80 ≤ (UInt8.ofNat (code % 64 + 128)).toNat ∧
      (UInt8.ofNat (code % 64 + 128)).toNat ≤ 0xBF := by
  rw [toNat_trailing]
  omega

theorem piecesFrom_encodeChar (c : Char) (rest : List UInt8) :
    piecesFrom 0 (String.utf8EncodeChar c ++ rest) = .character c :: piecesFrom 0 rest := by
  have hvalid : c.val.toNat < 0xD800 ∨ (0xDFFF < c.val.toNat ∧ c.val.toNat < 0x110000) := c.valid
  have hchar : Char.ofNat c.val.toNat = c := Char.ofNat_toNat c
  unfold String.utf8EncodeChar
  generalize c.val.toNat = code at hvalid hchar
  dsimp only
  split
  case isTrue hone =>
    have hfirst : (UInt8.ofNat code).toNat = code :=
      UInt8.toNat_ofNat_of_lt (by show _ < 256; omega)
    have hascii : UInt8.ofNat code < 0x80 := by
      rw [UInt8.lt_iff_toNat_lt, hfirst]
      exact Nat.lt_succ_of_le hone
    rw [List.cons_append, piecesFrom, firstPiece, if_pos hascii, hfirst, hchar]
    rfl
  case isFalse hone =>
    split
    case isTrue htwo =>
      have hfirst : (UInt8.ofNat (code / 64 % 32 + 192)).toNat = code / 64 % 32 + 192 :=
        UInt8.toNat_ofNat_of_lt (by show _ < 256; omega)
      have hlead := lead_of_bounds (trailing_bounds code) (.inl ⟨rfl, by rw [hfirst]; omega⟩)
      rw [piecesFrom_character hlead (List.forall_mem_nil _)]
      have hcode : (code / 64 % 32 + 192) % 32 * 64 + (code % 64 + 128) % 64 = code := by omega
      simp only [assembleChar, leadBits, List.foldl_cons, List.foldl_nil, List.length_singleton,
        hfirst, toNat_trailing, hcode, hchar]
    case isFalse htwo =>
      split
      case isTrue hthree =>
        have hfirst : (UInt8.ofNat (code / 4096 % 16 + 224)).toNat = code / 4096 % 16 + 224 :=
          UInt8.toNat_ofNat_of_lt (by show _ < 256; omega)
        have hlead := lead_of_bounds (trailing_bounds (code / 64))
          (.inr (.inl ⟨rfl, by rw [hfirst, toNat_trailing]; omega⟩))
        rw [piecesFrom_character hlead
          (List.forall_mem_singleton.mpr (trailing_bounds code))]
        have hcode : ((code / 4096 % 16 + 224) % 16 * 64 + (code / 64 % 64 + 128) % 64) * 64 +
          (code % 64 + 128) % 64 = code := by omega
        simp only [assembleChar, leadBits, List.foldl_cons, List.foldl_nil, List.length_cons,
          List.length_nil, hfirst, toNat_trailing, hcode, hchar]
      case isFalse hthree =>
        have hfirst : (UInt8.ofNat (code / 262144 % 8 + 240)).toNat = code / 262144 % 8 + 240 :=
          UInt8.toNat_ofNat_of_lt (by show _ < 256; omega)
        have hlead := lead_of_bounds (trailing_bounds (code / 4096))
          (.inr (.inr ⟨rfl, by rw [hfirst, toNat_trailing]; omega⟩))
        rw [piecesFrom_character hlead (List.forall_mem_cons.mpr ⟨trailing_bounds (code / 64),
          List.forall_mem_singleton.mpr (trailing_bounds code)⟩)]
        have hcode : (((code / 262144 % 8 + 240) % 8 * 64 + (code / 4096 % 64 + 128) % 64) * 64 +
          (code / 64 % 64 + 128) % 64) * 64 + (code % 64 + 128) % 64 = code := by omega
        simp only [assembleChar, leadBits, List.foldl_cons, List.foldl_nil, List.length_cons,
          List.length_nil, hfirst, toNat_trailing, hcode, hchar]

/-- What is written is read back, whatever bytes are behind it. -/
theorem decodeWith_encode_append (substitute : Char) (text : String) (rest : List UInt8) :
    decodeWith substitute (encode text ++ rest) = text.toList ++ decodeWith substitute rest := by
  rw [encode]
  induction text.toList with
  | nil => rfl
  | cons c more ih =>
      rw [List.flatMap_cons, List.append_assoc, decodeWith, pieces, piecesFrom_encodeChar,
        List.map_cons, List.cons_append, ← ih]
      rfl

theorem decodeWith_encode (substitute : Char) (text : String) :
    decodeWith substitute (encode text) = text.toList := by
  have hread := decodeWith_encode_append substitute text []
  rwa [List.append_nil, show decodeWith substitute [] = [] from rfl, List.append_nil] at hread

end Utf8
end Text
end TapeCompiler
