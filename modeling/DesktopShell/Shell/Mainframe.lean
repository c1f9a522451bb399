import DesktopShell.Shell.Command

-- The game of the mainframe, `hack`, and its effect, `matrix`. The mainframe has files and
-- programs of its own, which are not on the drive.
namespace DesktopShell.Mainframe

def address : String := "/mainframe/192.168.13.37"

def intro : List String :=
  [ "Initializing uplink...",
    "Bypassing firewall [##########] 100%",
    "Cracking RSA-512 handshake... done",
    "Spoofing MAC address 00:1A:2B:3C:4D:5E",
    "ACCESS GRANTED",
    "Connected to mainframe 192.168.13.37",
    "Commands: hack cat <file>, hack run <program>, hack exit" ]

def farewell : List String := ["Wiping logs...", "Connection closed."]

def files : List (String × String) :=
  [ ("secret_project.txt",
      "PROJECT CHIMERA\nStatus: CLASSIFIED\nThe coffee machine on floor 3 is sentient.\n" ++
        "Do not let it near the network."),
    ("passwords.txt", "admin: hunter2\nroot: correct-horse-battery-staple\nguest: guest"),
    ("mainframe.log",
      "[00:00:01] boot ok\n[00:13:37] intrusion detected\n[00:13:38] intrusion ignored") ]

def programs : List (String × Outcome) :=
  [ ("matrix.exe", (Outcome.ofLine (.success "Wake up, Neo...")).withEffect .matrix),
    ("self_destruct.exe",
      (Outcome.ofLines
        [ .error "SELF DESTRUCT SEQUENCE INITIATED", .text "3...", .text "2...", .text "1...",
          .info "Just kidding." ]).withEffect .alarm),
    ("trace.exe",
      (Outcome.ofLines
        [ .text "Tracing route to 192.168.13.37...",
          .info "Trace complete. Nobody is watching. Probably." ]).withEffect .trace) ]

def connect : Handler := fun _ scene =>
  match scene.session.mode with
  | .hack =>
      scene.done (.ofLine (.info "Already connected. Type 'hack exit' to disconnect."))
  | .normal =>
      (scene.mapSession (·.enterHack address)).done
        ((Outcome.ofLines (intro.map .success)).paced scene.session.settings.teletypeDelay)

def disconnect : Handler := fun _ scene =>
  (scene.mapSession (·.exitHack.2)).done (Outcome.ofLines (farewell.map .info)).withoutEffect

def readFile (name : String) : Handler := fun call scene =>
  match files.find? (Text.sameIgnoringAsciiCase ·.1 name) with
  | some (_, content) => scene.done (.ofLines ((Text.lines content).map .text))
  | none => scene.fail (.notFound call.name name)

def runProgram (name : String) : Handler := fun call scene =>
  match programs.find? (Text.sameIgnoringAsciiCase ·.1 name) with
  | some (_, outcome) => scene.done outcome
  | none => scene.fail (.notFound call.name name)

-- Without an operand `hack` connects. All else needs a connection.
def hack : Handler := fun call scene =>
  match call.line.args with
  | [] => connect call scene
  | sub :: operands =>
      match scene.session.mode with
      | .normal => scene.fail (.invalidArgument call.name "not connected (run 'hack' first)")
      | .hack =>
          let sub := Text.lowercase sub
          if sub = "cat" then
            match operands with
            | [] => scene.fail (.missingOperand call.name "hack cat <file>")
            | file :: _ => readFile file call scene
          else if sub = "run" then
            match operands with
            | [] => scene.fail (.missingOperand call.name "hack run <program>")
            | name :: _ => runProgram name call scene
          else if sub = "exit" then disconnect call scene
          else scene.fail (.invalidArgument call.name ("unknown subcommand '" ++ sub ++ "'"))

def matrix : Handler := fun call scene =>
  if call.line.firstArg?.any (Text.sameIgnoringAsciiCase · "off") then
    scene.done Outcome.nothing.withoutEffect
  else
    scene.done ((Outcome.ofLine (.success "Follow the white rabbit.")).withEffect .matrix)

end DesktopShell.Mainframe
