import Conformance.Json.View
import Conformance.Launch

/-!
# Worlds described in JSON

A world can be written down: its working directory, its environment variables, and its files in the
order in which they are made. Each file has a path and is a text, which may be executable, a link,
or a directory. The directories above a file need not be listed, and the shell is always there.
-/

namespace Conformance.World

/-- A world with nothing but the shell, and two devices: one swallows output, one is always full. -/
def bare : World :=
  { files := ⟨[
      (Utf8.encode "dev",
        .directory [(Utf8.encode "null", .device), (Utf8.encode "full", .device)]),
      (Utf8.encode "bin", .directory [(Utf8.encode "sh", .file Launch.shellImage true)])]⟩
    cwd := some []
    environment := .empty
    limit? := fun loc =>
      if loc = [Utf8.encode "dev", Utf8.encode "full"] then some ⟨0, .noSpace, 0⟩ else none }

def members? (x : Json) : Option (List (String × Json)) :=
  match x with
  | .object ms => Json.members ms
  | _ => none

def withFile? (w : World) (x : Json) : Option World := do
  let fs ← members? x
  let path ← Fields.required fs "path" Json.text?
  let text ← Fields.optional Json.view fs "text" Json.text?
  let link ← Fields.optional Json.view fs "link" Json.text?
  let executable ← Fields.withDefault fs "executable" false Json.bool?
  let p := Path.ofText path
  match text, link with
  | some s, none =>
    let w ← (w.makeDirectories p.directoryPart).toOption
    let w ← (w.createFile p (Utf8.encode s)).toOption
    return w.setExecutable p executable
  | none, some target =>
    let w ← (w.makeDirectories p.directoryPart).toOption
    (w.makeLink p (.ofText target)).toOption
  | none, none => (w.makeDirectories p).toOption
  | some _, some _ => none

def withFiles? (w : World) : List Json → Option World
  | [] => some w
  | x :: xs => (w.withFile? x).bind fun w => withFiles? w xs

def environment? (x : Json) : Option Environment := do
  let fs ← members? x
  let vars ← fs.mapM fun (name, v) => v.text?.map fun value => (name, value)
  return vars.foldl (fun e (name, value) => e.set name (Utf8.encode value)) .empty

def ofJson? (x : Json) : Option World := do
  let fs ← members? x
  let files ← Fields.withDefault fs "files" [] Json.list?
  let environment ← Fields.withDefault fs "environment" .empty environment?
  let directory ← Fields.withDefault fs "directory" "/" Json.text?
  let w ← bare.withFiles? files
  let w ← (w.changeDirectory (.ofText directory)).toOption
  return { w with environment }

def read? (s : String) : Option World := (Json.read? s).bind ofJson?

end Conformance.World
