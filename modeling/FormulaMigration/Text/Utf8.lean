import FormulaMigration.Text

namespace FormulaMigration

abbrev Bytes := List UInt8

namespace Text

def encodeChar (c : Char) : Bytes :=
  let n := c.toNat
  if n < 0x80 then [UInt8.ofNat n]
  else if n < 0x800 then [UInt8.ofNat (0xC0 + n / 64), UInt8.ofNat (0x80 + n % 64)]
  else if n < 0x10000 then
    [UInt8.ofNat (0xE0 + n / 4096), UInt8.ofNat (0x80 + n / 64 % 64),
      UInt8.ofNat (0x80 + n % 64)]
  else
    [UInt8.ofNat (0xF0 + n / 262144), UInt8.ofNat (0x80 + n / 4096 % 64),
      UInt8.ofNat (0x80 + n / 64 % 64), UInt8.ofNat (0x80 + n % 64)]

def encode (t : Text) : Bytes :=
  t.flatMap encodeChar

def isContinuation (b : UInt8) : Bool :=
  0x80 ≤ b && b < 0xC0

def ofCodePoint? (least n : Nat) : Option Char :=
  if least ≤ n ∧ Nat.isValidChar n then some (Char.ofNat n) else none

def lowBits (b : UInt8) : Nat :=
  b.toNat % 64

def decode? : Bytes → Option Text
  | [] => some []
  | a :: rest =>
    if a < 0x80 then do some (Char.ofNat a.toNat :: (← decode? rest))
    else
      match rest with
      | b :: rest =>
        if !isContinuation b then none
        else if 0xC0 ≤ a ∧ a < 0xE0 then do
          let c ← ofCodePoint? 0x80 (a.toNat % 32 * 64 + lowBits b)
          some (c :: (← decode? rest))
        else
          match rest with
          | c :: rest =>
            if !isContinuation c then none
            else if 0xE0 ≤ a ∧ a < 0xF0 then do
              let ch ← ofCodePoint? 0x800 ((a.toNat % 16 * 64 + lowBits b) * 64 + lowBits c)
              some (ch :: (← decode? rest))
            else
              match rest with
              | d :: rest =>
                if !isContinuation d then none
                else if 0xF0 ≤ a ∧ a < 0xF8 then do
                  let ch ← ofCodePoint? 0x10000
                    (((a.toNat % 8 * 64 + lowBits b) * 64 + lowBits c) * 64 + lowBits d)
                  some (ch :: (← decode? rest))
                else none
              | [] => none
          | [] => none
      | [] => none

end Text

end FormulaMigration
