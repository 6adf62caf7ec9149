import Conformance.Csv
import Conformance.Json.Printer
import Conformance.Json.View
import Conformance.Log
import Conformance.Report
import Conformance.World
import Conformance.Yaml.Printer
import Conformance.Yaml.View

/-!
# Storing reports

A report is written as JSON, YAML or comma-separated records, as the extension of its file says; the
first two can be read back. The file is opened, and emptied, before the report is written. A report
with a path that is no text cannot be written as JSON or YAML: what JSON could write up to that path
stays in the file, and of YAML nothing does.

What is written goes through a buffer. A file that does not take it all refuses the rest while the
report is written, as far as it does not fit the buffer, or when the buffer is flushed at the end
(`refusal?`); what it took stays in it.
-/

namespace Conformance

inductive ReportFormat where
  | json
  | yaml
  | csv
deriving DecidableEq, Repr

namespace ReportFormat

/-- The format of an extension, in either case of its letters. -/
def ofExtension (extension : String) : ReportFormat :=
  let name := extension.map Char.toLower
  if name == "yaml" || name == "yml" then .yaml
  else if name == "csv" then .csv
  else .json

/-- The format of a file: that of its extension, and JSON for any other file. -/
def ofPath (p : Path) : ReportFormat :=
  match p.extension?.bind Utf8.decode? with
  | some extension => ofExtension extension
  | none => .json

def title : ReportFormat → String
  | .json => "JSON"
  | .yaml => "YAML"
  | .csv => "CSV"

end ReportFormat

inductive StoreError where
  | notCreated (p : Path) (e : FileError)
  /-- A path of a report is no text. -/
  | jsonNotWritten
  | yamlNotWritten
  /-- The file refused a part of the report. -/
  | notTaken (format : ReportFormat) (e : FileError)
  /-- The file refused what was left in the buffer. -/
  | notFlushed (e : FileError)
  | notOpened (p : Path) (e : FileError)
  | jsonNotRead
  | yamlNotRead
  | csvNotLoaded (p : Path)
deriving DecidableEq, Repr

namespace StoreError

def message : StoreError → String
  | .notCreated p _ => "Failed to create report file " ++ p.display
  | .jsonNotWritten => "Failed to write JSON report"
  | .yamlNotWritten => "Failed to serialize YAML report"
  | .notTaken format _ => "Failed to write " ++ format.title ++ " report"
  | .notFlushed _ => "Failed to flush report"
  | .notOpened p _ => "Failed to open report file " ++ p.display
  | .jsonNotRead => "Failed to parse JSON report"
  | .yamlNotRead => "Failed to parse YAML report"
  | .csvNotLoaded p => "CSV reports cannot be loaded back: " ++ p.display

def cause? : StoreError → Option FileError
  | .notCreated _ e => some e
  | .notTaken _ e => some e
  | .notFlushed e => some e
  | .notOpened _ e => some e
  | _ => none

/-- What a path without text is told to be, at the end of a written error. -/
def pathComplaint : String := "path contains invalid UTF-8 characters"

def fullMessage (e : StoreError) : String :=
  match e, e.cause? with
  | .jsonNotWritten, _ | .yamlNotWritten, _ => e.message ++ ": " ++ pathComplaint
  | _, some cause => e.message ++ ": " ++ cause.message
  | _, none => e.message

end StoreError

namespace Store

/-- What a report leaves in its file, and the error if that is not all of it. -/
def content (r : StoredRun) : ReportFormat → String × Option StoreError
  | .json =>
    let chunks := Json.pretty 0 r.data
    match chunks.complete? with
    | some text => (text, none)
    | none => (chunks.started, some .jsonNotWritten)
  | .yaml =>
    match Yaml.text? r.data with
    | some text => (text, none)
    | none => ("", some .yamlNotWritten)
  | .csv => (Csv.text true r.summary.outcomes, none)

def bufferSize : Nat := 8192

/-- How many bytes of a report are handed to its file before the buffer is flushed at the end.
Records are flushed by their own writer, and YAML is written in one piece. -/
def handedOver (limit : Limit) (format : ReportFormat) (length : Nat) : Nat :=
  match format with
  | .csv => length
  | .yaml => if length < bufferSize then 0 else length
  | .json => if length ≤ bufferSize then 0 else length - min limit.held bufferSize

/-- The error of a report that goes to a file with a limit. An error of the report itself is found
when what is in front of it was handed over, and the buffer is then dropped. -/
def refusal? (limit? : Option Limit) (format : ReportFormat) (length : Nat)
    (error? : Option StoreError) : Option StoreError :=
  match limit? with
  | none => error?
  | some limit =>
    if limit.room < handedOver limit format length then some (.notTaken format limit.error)
    else if error?.isNone && limit.room < length then some (.notFlushed limit.error)
    else error?

def savedEvent (r : StoredRun) (p : Path) : Log.Event :=
  Log.info .store ("Saved run " ++ r.id ++ " to " ++ p.display)

def save (w : World) (r : StoredRun) (p : Path) :
    Except StoreError ReportFormat × List Log.Event × World :=
  match w.openForWriting p with
  | .error e => (.error (.notCreated p e), [], w)
  | .ok loc =>
    let format := ReportFormat.ofPath p
    let (text, error?) := content r format
    let bs := Utf8.encode text
    let taken := w.setContent loc (w.accepted loc bs)
    match refusal? (w.limit? loc) format bs.length error? with
    | some e => (.error e, [], taken)
    | none => (.ok format, [savedEvent r p], taken)

/-- The least private-use character from `n` on that a text does not hold; the first argument bounds
the search. -/
def freshFrom (text : List Char) : Nat → Nat → Char
  | 0, n => Char.ofNat n
  | fuel + 1, n =>
    if text.contains (Char.ofNat n) then freshFrom text fuel (n + 1) else Char.ofNat n

/-- Reads a JSON value from bytes. Bytes that spell no character are allowed in strings that are not
looked at, so they are read as a character that stands for nothing else. -/
def readJson? (bs : Bytes) : Option Json :=
  let pieces := Utf8.pieces bs
  let text := pieces.map Utf8.Piece.shown
  let stray := freshFrom text text.length 0xE000
  Json.readWith? (· == stray) (pieces.map fun p => p.char?.getD stray)

def decode (p : Path) (bs : Bytes) : ReportFormat → Except StoreError StoredRun
  | .json =>
    match (readJson? bs).bind (StoredRun.read? Json.view) with
    | some r => .ok r
    | none => .error .jsonNotRead
  | .yaml =>
    match (Utf8.decode? bs).bind fun s => Yaml.read? s.toList with
    | some d =>
      match StoredRun.read? (Yaml.view d.anchors) d.root with
      | some r => .ok r
      | none => .error .yamlNotRead
    | none => .error .yamlNotRead
  | .csv => .error (.csvNotLoaded p)

/-- The bytes of an opened file. A directory can be opened, and has none that make a report. -/
def openFile (w : World) (p : Path) : Except FileError Bytes :=
  match w.find true p with
  | .error e => .error e
  | .ok (_, .file bs _) => .ok bs
  | .ok (_, _) => .ok []

def load (w : World) (p : Path) : Except StoreError StoredRun × List Log.Event :=
  match openFile w p with
  | .error e => (.error (.notOpened p e), [])
  | .ok bs =>
    match decode p bs (.ofPath p) with
    | .error e => (.error e, [])
    | .ok r => (.ok r, [Log.debug .store ("Loaded run report from " ++ p.display)])

end Store

end Conformance
