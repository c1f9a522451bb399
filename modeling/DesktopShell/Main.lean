import DesktopShell.Cli.Run
import Std.Time

-- The program itself: it fetches files, lines and the time, and prints as it goes.
open DesktopShell Std.Time

namespace DesktopShell.Cli

def momentOf (t : PlainDateTime) : Moment :=
  (Moment.ofReading?
    { year := t.date.year.toInt
      month := t.date.month.toNat
      day := t.date.day.toNat
      hour := t.time.hour.toNat
      minute := t.time.minute.toNat
      second := t.time.second.toNat
      nano := t.time.nanosecond.toNat }).getD .epoch

def readClock : IO Clock := do
  let now := momentOf (DateTime.ofTimestampWithZone (← Timestamp.now) TimeZone.UTC).toPlainDateTime
  let wall ← try momentOf <$> PlainDateTime.now catch _ => pure now
  return ⟨now, wall⟩

def readPlace (name : String) : IO Place := do
  try
    return .file (← IO.FS.readBinFile name).toList
  catch _ =>
    try
      let _ ← IO.FS.realPath name
      return .unreadable
    catch _ => return .absent

-- Print the log of a scene and drop it. Whoever types a line need not be shown it again.
def printLog (isInteractive : Bool) (scene : Scene) : IO Scene := do
  let out ← IO.getStdout
  for event in scene.log do
    match event with
    | .shown (.command ..) => if !isInteractive then out.putStr (printed event)
    | _ => out.putStr (printed event)
  out.flush
  return { scene with log := [] }

-- Show pending lines one by one, with the delay between them.
def drain (isInteractive : Bool) (delay : Nat) : Nat → Scene → IO Scene
  | 0, scene => return scene
  | n + 1, scene => do
      let scene ← printLog isInteractive (scene.deliver 1)
      if n ≠ 0 then IO.sleep (.ofNat (min delay 4294967295))
      drain isInteractive delay n scene

def submitLine (isInteractive : Bool) (scene : Scene) (text : String) : IO Scene := do
  let (scene, delay) := scene.start Registry.builtin (← readClock) text
  let scene ← printLog isInteractive scene
  drain isInteractive delay scene.session.pending.length scene

-- Run the lines of the input. The result tells whether all of it was text.
partial def listen (isInteractive : Bool) (input : IO.FS.Stream) (scene : Scene) :
    IO (Scene × Bool) := do
  if isInteractive then
    let out ← IO.getStdout
    out.putStr scene.session.prompt
    out.flush
  let chunk ← readChunk []
  if chunk.isEmpty then return (scene, true)
  match hear (chunk.filter (· ≠ newline)) with
  | .leave => return (scene, true)
  | .garbled => return (scene, false)
  | .line text => listen isInteractive input (← submitLine isInteractive scene text)
where
  -- Bytes up to a line feed or the end of the input.
  readChunk (before : Bytes) : IO Bytes := do
    let bytes ← input.read 1
    match bytes.toList with
    | [] => return before.reverse
    | b :: _ => if b = newline then return (b :: before).reverse else readChunk (b :: before)

def performLive (options : Options) : IO UInt32 := do
  let config ← match options.config with
    | some name => readPlace name
    | none => pure .absent
  let snapshot ← match options.snapshot with
    | some name => readPlace name
    | none => pure .absent
  let now := (← readClock).now
  match settings? (fun _ => config) options, drive? (fun _ => snapshot) now options with
  | some settings, some drive =>
      match opening? .ample settings drive with
      | .error refusal => return .ofNat (crashCode refusal)
      | .ok scene =>
          let input ← IO.getStdin
          let isInteractive := options.commands.isEmpty && (← input.isTty)
          let (scene, isSound) ←
            if options.commands.isEmpty then
              IO.print bannerText
              listen isInteractive input scene
            else
              pure ((← options.commands.foldlM (submitLine isInteractive) scene), true)
          if !isSound then return 1
          match options.snapshot with
          | none => return 0
          | some name =>
              IO.FS.writeFile name scene.drive.snapshot
              return 0
  | _, _ => return 1

end DesktopShell.Cli

open DesktopShell.Cli in
def main (args : List String) : IO UInt32 := do
  match Request.ofArguments args with
  | .help =>
      IO.print helpText
      return 0
  | .version =>
      IO.print versionText
      return 0
  | .misuse =>
      IO.eprint helpText
      return 2
  | .run options =>
      try performLive options
      catch _ => return 1
