import Erasure.Diagnostic

/-!
Diagnostics as JSON text, for other programs.
-/

namespace Erasure

namespace Json

/-- A character inside a JSON string. -/
def escape (c : Char) : List Char :=
  match c with
  | '"' => ['\\', '"']
  | '\\' => ['\\', '\\']
  | '\x08' => ['\\', 'b']
  | '\t' => ['\\', 't']
  | '\n' => ['\\', 'n']
  | '\x0c' => ['\\', 'f']
  | '\r' => ['\\', 'r']
  | c =>
      if c.toNat < 0x20 then
        ['\\', 'u', '0', '0', Nat.digitChar (c.toNat / 16), Nat.digitChar (c.toNat % 16)]
      else [c]

/-- A text as a JSON string. -/
def quote (s : String) : String := "\"" ++ String.ofList (s.toList.flatMap escape) ++ "\""

/-- Items in a bracket, each on a line of its own with the given indentation. -/
def block (opening closing : String) (indent : Nat) (items : List String) : String :=
  let margin := "\n" ++ "".pushn ' ' indent
  let lines := items.map fun item => margin ++ "  " ++ item
  if items.isEmpty then opening ++ closing
  else opening ++ ",".intercalate lines ++ margin ++ closing

end Json

/-- How JSON text names a severity. -/
def Severity.jsonName : Severity → String
  | error => "Error"
  | warning => "Warning"
  | suggestion => "Suggestion"
  | message => "Message"

namespace Diagnostic

/-- The fields of a diagnostic in JSON; those that are not set are left out. -/
def jsonFields (d : Diagnostic) : List (String × String) :=
  (d.file?.map fun file => ("file", Json.quote file)).toList ++
    [("start", toString d.start), ("length", toString d.length),
      ("message_text", Json.quote d.text), ("category", Json.quote d.severity.jsonName),
      ("code", toString d.code)] ++
    (d.line?.map fun line => ("line", toString line)).toList ++
    (d.character?.map fun column => ("character", toString column)).toList

/-- Diagnostics as a JSON array with an indentation of two. -/
def listToJson (ds : List Diagnostic) : String :=
  let object (d : Diagnostic) : String :=
    Json.block "\x7b" "\x7d" 2
      (d.jsonFields.map fun (key, value) => Json.quote key ++ ": " ++ value)
  Json.block "[" "]" 0 (ds.map object)

end Diagnostic
end Erasure
