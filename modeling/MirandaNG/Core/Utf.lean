import MirandaNG.Data.CStr

/-!
This module contains the UTF-8 conversions of the core: both directions first compute the length of
the result and then convert into a buffer of that length. A wide character has 16 bits.
-/

namespace Utf

/--
The number of following bytes by the first byte of a sequence, for bytes above 0x7f.
-/
def utf8_length (ch : UInt8) : Nat :=
  if ch < 0xc2 then 0
  else if ch < 0xe0 then 1
  else if ch < 0xf0 then 2
  else if ch < 0xf5 then 3
  else 0

def utf8_mask : Nat → UInt8
  | 0 => 0x7f
  | 1 => 0x1f
  | 2 => 0x0f
  | _ => 0x07

def utf8_minval : Nat → Nat
  | 0 => 0x0
  | 1 => 0x80
  | 2 => 0x800
  | _ => 0x10000

/--
The character that starts with `ch` and the bytes behind it. There is none where the code
returns `~0`.
-/
def decodeUtf8Char (ch : UInt8) (str : List UInt8) : Option (Nat × List UInt8) :=
  let len := utf8_length ch
  if len = 0 ∨ str.length < len then
    none
  else
    match go len (ch &&& utf8_mask len).toNat str with
    | none => none
    | some (res, str) => if res < utf8_minval len then none else some (res, str)
where
  go : Nat → Nat → List UInt8 → Option (Nat × List UInt8)
    | 0, res, str => some (res, str)
    | _ + 1, _, [] => none
    | len + 1, res, b :: str =>
      let ch := b ^^^ 0x80
      if ch ≥ 0x40 then none else go len (res <<< 6 ||| ch.toNat) str

/--
The length of the converted string. There is none where the code returns -2.
-/
def Utf8toUcs2Len (src : List UInt8) : Option Nat := go src.length src
where
  go : Nat → List UInt8 → Option Nat
    | _, [] => some 0
    | 0, _ :: _ => none
    | n + 1, ch :: src =>
      if ch < 0x80 then
        (go n src).map (· + 1)
      else
        match decodeUtf8Char ch src with
        | none => none
        | some (res, src) =>
          if res ≤ 0x10ffff then
            (go n src).map (· + if res > 0xffff then 2 else 1)
          else
            none

/--
The conversion into a buffer of `dstlen` characters: -1 if they are not enough, -2 for a bad
character.
-/
def Utf8toUcs2 (src : List UInt8) (dstlen : Nat) : Except Int (List UInt16) :=
  go src.length src dstlen
where
  go : Nat → List UInt8 → Nat → Except Int (List UInt16)
    | _, [], _ => .ok []
    | _, _ :: _, 0 => .error (-1)
    | 0, _ :: _, _ + 1 => .error (-1)
    | n + 1, ch :: src, room + 1 =>
      if ch < 0x80 then
        (go n src room).map (ch.toUInt16 :: ·)
      else
        match decodeUtf8Char ch src with
        | none => .error (-2)
        | some (res, src) =>
          if res ≤ 0xffff then
            (go n src room).map (UInt16.ofNat res :: ·)
          else if res ≤ 0x10ffff then
            match room with
            | 0 => .error (-1)
            | room + 1 =>
              let res := res - 0x10000
              (go n src room).map
                (UInt16.ofNat (0xd800 ||| res >>> 10) :: UInt16.ofNat (0xdc00 ||| res &&& 0x3ff) :: ·)
          else
            .error (-2)

def mir_utf8decodeW (str : CStr) : Option (List UInt16) :=
  match Utf8toUcs2Len str.bytes with
  | none => none
  | some destlen => (Utf8toUcs2 str.bytes destlen).toOption

/--
The character a wide string starts with, 0 for a surrogate that is not part of a pair.
-/
def getSurrogateValue : List UInt16 → Nat
  | [] => 0
  | ch :: src =>
    if ch ≥ 0xd800 ∧ ch ≤ 0xdfff then
      match src with
      | [] => 0
      | ch' :: _ =>
        if ch > 0xdbff ∨ ch' < 0xdc00 ∨ ch' > 0xdfff then
          0
        else
          0x10000 + ((ch.toNat &&& 0x3ff) <<< 10) + (ch'.toNat &&& 0x3ff)
    else
      ch.toNat

/--
The length of the converted string. There is none where the code returns -2.
-/
def mir_utf8len : List UInt16 → Option Nat
  | [] => some 0
  | ch :: src =>
    if ch < 0x80 then
      (mir_utf8len src).map (· + 1)
    else if ch < 0x800 then
      (mir_utf8len src).map (· + 2)
    else
      let val := getSurrogateValue (ch :: src)
      if val = 0 then
        none
      else if val < 0x10000 then
        (mir_utf8len src).map (· + 3)
      else
        match src with
        | [] => none
        | _ :: src => (mir_utf8len src).map (· + 4)

def tailByte (val : Nat) : UInt8 := UInt8.ofNat (0x80 ||| val &&& 0x3f)

/--
The conversion into a buffer of `dstlen` bytes: -1 if they are not enough, -2 for a bad character.
-/
def Ucs2toUtf8 : List UInt16 → Nat → Except Int (List UInt8)
  | [], _ => .ok []
  | ch :: src, len =>
    if ch < 0x80 then
      if len < 1 then .error (-1) else (Ucs2toUtf8 src (len - 1)).map (ch.toUInt8 :: ·)
    else if ch < 0x800 then
      if len < 2 then
        .error (-1)
      else
        (Ucs2toUtf8 src (len - 2)).map
          ([UInt8.ofNat (0xc0 ||| ch.toNat >>> 6), tailByte ch.toNat] ++ ·)
    else
      let val := getSurrogateValue (ch :: src)
      if val = 0 then
        .error (-2)
      else if val < 0x10000 then
        if len < 3 then
          .error (-1)
        else
          (Ucs2toUtf8 src (len - 3)).map
            ([UInt8.ofNat (0xe0 ||| val >>> 12), tailByte (val >>> 6), tailByte val] ++ ·)
      else
        match src with
        | [] => .error (-2)
        | _ :: src =>
          if len < 4 then
            .error (-1)
          else
            (Ucs2toUtf8 src (len - 4)).map
              ([UInt8.ofNat (0xf0 ||| val >>> 18), tailByte (val >>> 12), tailByte (val >>> 6),
                tailByte val] ++ ·)

/--
The result of the conversion is read up to `destlen` bytes, whatever the conversion returned.
-/
def mir_utf8encodeW (src : List UInt16) : Option CStr :=
  let src := src.takeWhile (· ≠ 0)
  match mir_utf8len src with
  | none => none
  | some destlen =>
    match Ucs2toUtf8 src destlen with
    | .ok result => some (CStr.ofMem result)
    | .error _ => none

end Utf
