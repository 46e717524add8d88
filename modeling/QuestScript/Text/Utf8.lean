/-!
# Bytes of a text

Files hold UTF-8. A source file may hold other bytes: each longest run of bytes that starts a
character without finishing it, and each byte that cannot start one, is read as the replacement
character. An environment file has to be well formed.
-/

namespace QuestScript.Text

/-- The bytes of a text in UTF-8. -/
def encodeUtf8 (s : String) : List UInt8 :=
  s.toList.flatMap String.utf8EncodeChar

/-- What a lead byte announces: the payload bits it holds, the number of bytes that follow it,
and the range of the first of these. -/
structure Lead where
  payload : Nat
  following : Nat
  low : UInt8 := 0x80
  high : UInt8 := 0xbf

/-- The announcement of a byte, if it can start a character. Overlong forms, surrogates and
numbers above `10ffff` are excluded by the range of the second byte. -/
def Lead.ofByte (b : UInt8) : Option Lead :=
  if b < 0x80 then some ⟨b.toNat, 0, 0x80, 0xbf⟩
  else if b < 0xc2 then none
  else if b < 0xe0 then some ⟨b.toNat - 0xc0, 1, 0x80, 0xbf⟩
  else if b = 0xe0 then some ⟨0, 2, 0xa0, 0xbf⟩
  else if b = 0xed then some ⟨0xd, 2, 0x80, 0x9f⟩
  else if b < 0xf0 then some ⟨b.toNat - 0xe0, 2, 0x80, 0xbf⟩
  else if b = 0xf0 then some ⟨0, 3, 0x90, 0xbf⟩
  else if b < 0xf4 then some ⟨b.toNat - 0xf0, 3, 0x80, 0xbf⟩
  else if b = 0xf4 then some ⟨4, 3, 0x80, 0x8f⟩
  else none

/-- The bytes that continue a character announced by `lead`, as far as they fit. -/
def Lead.continuation (lead : Lead) (bytes : List UInt8) : List UInt8 :=
  match lead.following, bytes with
  | n + 1, b :: rest =>
    if lead.low ≤ b ∧ b ≤ lead.high then
      b :: (rest.take n).takeWhile fun c => 0x80 ≤ c && c ≤ 0xbf
    else []
  | _, _ => []

/-- The characters of a byte sequence in order, `none` for each malformed piece. -/
def decodePieces : List UInt8 → List (Option Char)
  | [] => []
  | b :: rest =>
    match Lead.ofByte b with
    | none => none :: decodePieces rest
    | some lead =>
      let more := lead.continuation rest
      let piece :=
        if more.length = lead.following then
          some (Char.ofNat (more.foldl (fun n c => n * 64 + (c.toNat - 0x80)) lead.payload))
        else none
      piece :: decodePieces (rest.drop more.length)
termination_by bytes => bytes.length
decreasing_by
  all_goals simp only [List.length_cons, List.length_drop]
  all_goals omega

/-- The text of a byte sequence, with U+FFFD for each malformed piece. -/
def decodeLossy (bytes : List UInt8) : String :=
  String.ofList ((decodePieces bytes).map (·.getD '\ufffd'))

/-- The text of a well-formed byte sequence. -/
def decodeUtf8? (bytes : List UInt8) : Option String :=
  ((decodePieces bytes).mapM id).map String.ofList

end QuestScript.Text
