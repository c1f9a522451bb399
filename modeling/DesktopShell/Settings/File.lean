import DesktopShell.Settings
import DesktopShell.Settings.Document

namespace DesktopShell.Settings

-- Why a text gives no settings: it assigns no settings at all, or it assigns values that break
-- a rule.
inductive Unfit
  | unreadable
  | invalid (fault : Fault)
  deriving DecidableEq

def Fault.report (fault : Fault) : String :=
  "invalid configuration: " ++ fault.message

-- Assign one setting. Other names and values of the wrong type are refused.
def assign? (s : Settings) : String × Document.Value → Option Settings
  | ("home_path", .text p) => some { s with homePath := p }
  | ("desktop_path", .text p) => some { s with desktopPath := p }
  | ("user", .text name) => some { s with user := name }
  | ("history_limit", .integer n) =>
      if 0 ≤ n then some { s with historyLimit := n.toNat } else none
  | ("transcript_limit", .integer n) =>
      if 0 ≤ n then some { s with transcriptLimit := n.toNat } else none
  | ("teletype_delay_ms", .integer n) =>
      if 0 ≤ n then some { s with teletypeDelay := n.toNat } else none
  | _ => none

-- The settings of a file. What it does not name is as it is by default, and nothing may be
-- named twice.
def ofFile (text : String) : Except Unfit Settings :=
  let read? := do
    let assignments ← Document.parse? text
    if (assignments.map Prod.fst).Nodup then assignments.foldlM assign? default else none
  match read? with
  | none => .error .unreadable
  | some settings =>
      match settings.fault? with
      | some fault => .error (.invalid fault)
      | none => .ok settings

end DesktopShell.Settings
