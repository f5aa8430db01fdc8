/-!
# Bytes in hexadecimal

Each byte is written by two digits. Main statement: what is written reads back.
-/

namespace Obsplan.Binary

def hexDigits : List Char :=
  ['0', '1', '2', '3', '4', '5', '6', '7', '8', '9', 'a', 'b', 'c', 'd', 'e', 'f']

/-- The digits of a byte. -/
def hexByte (b : UInt8) : List Char :=
  [(hexDigits[b.toNat / 16]?).getD '0', (hexDigits[b.toNat % 16]?).getD '0']

/-- Bytes in hexadecimal. -/
def toHex (bytes : List UInt8) : String := String.ofList (bytes.flatMap hexByte)

/-- The bytes written by digits. -/
def readHex? : List Char → Option (List UInt8)
  | [] => some []
  | [_] => none
  | a :: b :: rest => do
    let high ← hexDigits.idxOf? a
    let low ← hexDigits.idxOf? b
    let bytes ← readHex? rest
    return UInt8.ofNat (16 * high + low) :: bytes

/-- The bytes written by a text. -/
def ofHex? (s : String) : Option (List UInt8) := readHex? s.toList

theorem readHex?_hexByte (b : UInt8) (rest : List Char) :
    readHex? (hexByte b ++ rest) = (readHex? rest).map (b :: ·) := by
  have h : ∀ b : UInt8,
      hexDigits.idxOf? ((hexDigits[b.toNat / 16]?).getD '0') = some (b.toNat / 16) ∧
      hexDigits.idxOf? ((hexDigits[b.toNat % 16]?).getD '0') = some (b.toNat % 16) := by
    intro b
    have hb := b.toNat_lt
    have digit : ∀ n, n < 16 → hexDigits.idxOf? ((hexDigits[n]?).getD '0') = some n := by decide
    exact ⟨digit _ (by omega), digit _ (by omega)⟩
  have hb : UInt8.ofNat (16 * (b.toNat / 16) + b.toNat % 16) = b := by
    rw [Nat.div_add_mod, UInt8.ofNat_toNat]
  simp only [hexByte, List.cons_append, List.nil_append, readHex?, (h b).1, (h b).2, hb,
    Option.bind_eq_bind, Option.bind_some, Option.pure_def]
  cases readHex? rest <;> rfl

theorem ofHex?_toHex (bytes : List UInt8) : ofHex? (toHex bytes) = some bytes := by
  simp only [ofHex?, toHex, String.toList_ofList]
  induction bytes with
  | nil => rfl
  | cons b bs ih => rw [List.flatMap_cons, readHex?_hexByte, ih, Option.map_some]

end Obsplan.Binary
