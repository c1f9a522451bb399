import DesktopShell.Drive.Item
import DesktopShell.Text.Blank

-- The lines that a run reads from its input.
namespace DesktopShell.Cli

def newline : UInt8 := 10

-- Bytes cut behind each line feed, which is dropped. What follows the last one is a line too,
-- unless it is empty.
def chunks : Bytes → List Bytes
  | [] => []
  | b :: bs =>
      if b = newline then [] :: chunks bs
      else match chunks bs with
        | [] => [[b]]
        | chunk :: rest => (b :: chunk) :: rest

def text? (bytes : Bytes) : Option String :=
  String.fromUTF8? ⟨bytes.toArray⟩

-- What a chunk of the input is: a line to run, the wish to leave, or no text at all.
inductive Heard
  | line (text : String)
  | leave
  | garbled
  deriving DecidableEq

-- Carriage returns at the end do not belong to a line.
def hear (chunk : Bytes) : Heard :=
  match text? chunk with
  | none => .garbled
  | some text =>
      let line := String.ofList (Text.dropEnd (· = '\r') text.toList)
      if Text.trim line = "exit" ∨ Text.trim line = "quit" then .leave else .line line

-- Lines to run, and whether all went well up to the end of them.
structure Script where
  lines : List String
  isSound : Bool
  deriving DecidableEq

-- The lines up to the wish to leave. Input that is no text spoils the run, but not the lines
-- before it.
def Script.ofChunks : List Bytes → Script
  | [] => ⟨[], true⟩
  | chunk :: rest =>
      match hear chunk with
      | .leave => ⟨[], true⟩
      | .garbled => ⟨[], false⟩
      | .line text =>
          let script := ofChunks rest
          ⟨text :: script.lines, script.isSound⟩

end DesktopShell.Cli
