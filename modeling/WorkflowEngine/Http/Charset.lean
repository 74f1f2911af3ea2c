import WorkflowEngine.Http.MediaType
import WorkflowEngine.Text.Blank

/-!
# Texts of bodies

A body is read in the charset its content type names: in UTF-8, which is also meant by no charset and
by an unknown one, or in the western single-byte charset that goes by many names. A mark of the byte
order at the start of a body is dropped.
-/
namespace WorkflowEngine

namespace Charset

/-- Names of the western charset, in lower case. -/
def westernNames : List String :=
  ["windows-1252", "cp1252", "x-cp1252", "latin1", "l1", "csisolatin1", "cp819", "ibm819",
    "iso-8859-1", "iso8859-1", "iso88591", "iso_8859-1", "iso_8859-1:1987", "iso-ir-100",
    "ascii", "us-ascii", "ansi_x3.4-1968"]

/-- The characters of the bytes from 0x80 to 0x9F in the western charset; the others are their own
numbers. -/
def westernMiddle : List Nat :=
  [0x20AC, 0x81, 0x201A, 0x192, 0x201E, 0x2026, 0x2020, 0x2021, 0x2C6, 0x2030, 0x160, 0x2039, 0x152,
    0x8D, 0x17D, 0x8F, 0x90, 0x2018, 0x2019, 0x201C, 0x201D, 0x2022, 0x2013, 0x2014, 0x2DC, 0x2122,
    0x161, 0x203A, 0x153, 0x9D, 0x17E, 0x178]

def westernChar (b : UInt8) : Char :=
  let n := b.toNat
  Char.ofNat (if 0x80 ≤ n && n < 0xA0 then westernMiddle.getD (n - 0x80) n else n)

/-- The mark of the byte order in UTF-8. -/
def orderMark : Bytes := [0xEF, 0xBB, 0xBF]

/-- The text of a body in a charset. -/
def decode (name : String) (body : Bytes) : String :=
  if orderMark.isPrefixOf body then Bytes.lossyText (body.drop orderMark.length)
  else if westernNames.contains (Http.lowerName (Text.trim name)) then
    String.ofList (body.map westernChar)
  else body.lossyText

end Charset

namespace Http

/-- The charset that headers with names in lower case tell. -/
def charset? (headers : List (String × Bytes)) : Option String := do
  let value ← headers.lookup "content-type"
  (← MediaType.parse? (headerText value)).parameter? "charset"

/-- The text of a body that came with some headers. -/
def bodyText (headers : List (String × Bytes)) (body : Bytes) : String :=
  Charset.decode ((charset? headers).getD "utf-8") body

end Http

end WorkflowEngine
