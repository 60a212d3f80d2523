namespace IndexRefresh.Text

def isContinuation (b : UInt8) : Bool :=
  b &&& 0xC0 == 0x80

def continuationBits (b : UInt8) : Nat :=
  (b &&& 0x3F).toNat

def charAbove? (least code : Nat) : Option Char :=
  if least ≤ code then
    if h : code.isValidChar then some (Char.ofNatAux code h) else none
  else none

def decodeBytes : List UInt8 → List (Option Char)
  | [] => []
  | a :: rest =>
      if a < 0x80 then some (Char.ofNat a.toNat) :: decodeBytes rest
      else
        match rest with
        | [] => [none]
        | b :: rest₁ =>
            if a < 0xE0 then
              match pair? a b with
              | some c => some c :: decodeBytes rest₁
              | none => none :: decodeBytes (b :: rest₁)
            else
              match rest₁ with
              | [] => none :: decodeBytes [b]
              | c :: rest₂ =>
                  if a < 0xF0 then
                    match triple? a b c with
                    | some ch => some ch :: decodeBytes rest₂
                    | none => none :: decodeBytes (b :: c :: rest₂)
                  else
                    match rest₂ with
                    | [] => none :: decodeBytes [b, c]
                    | d :: rest₃ =>
                        match quadruple? a b c d with
                        | some ch => some ch :: decodeBytes rest₃
                        | none => none :: decodeBytes (b :: c :: d :: rest₃)
  termination_by bs => bs.length
where
  pair? (a b : UInt8) : Option Char :=
    if 0xC0 ≤ a && isContinuation b then
      charAbove? 0x80 ((a &&& 0x1F).toNat * 64 + continuationBits b)
    else none
  triple? (a b c : UInt8) : Option Char :=
    if isContinuation b && isContinuation c then
      charAbove? 0x800 (((a &&& 0x0F).toNat * 64 + continuationBits b) * 64 + continuationBits c)
    else none
  quadruple? (a b c d : UInt8) : Option Char :=
    if a < 0xF8 && isContinuation b && isContinuation c && isContinuation d then
      charAbove? 0x10000
        ((((a &&& 0x07).toNat * 64 + continuationBits b) * 64 + continuationBits c) * 64
          + continuationBits d)
    else none

end IndexRefresh.Text
