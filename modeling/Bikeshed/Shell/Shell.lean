import Bikeshed.Keyboard.Driver
import Bikeshed.Tetris.Drawing

/-!
# The shell

`shell.c` and `string.c` of `init`. The keys that are typed are an argument: `read_key` takes the
first one, and waits when there is none. Every access to an array is checked.
-/

namespace Bikeshed.Shell

open Lib Vga

/-- `COMMAND_SIZE` -/
def commandSize : ℕ := 256

/-- The static variables of `shell.c`, `next` of `rand.c`, and the screen. -/
structure State where
  command : List Byte
  commandLength : BitVec 32
  next : BitVec 32
  screen : Screen

def textColor : Color := ⟨fgLightBlue, bgBlack, 0⟩

def backspaceKey : Byte := 0x08
def newlineKey : Byte := 0x0A

/-! ## Strings -/

/-- The loop of `streq`, on two arrays. -/
def streq : List Byte → List Byte → Option Bool
  | c1 :: str1, c2 :: str2 =>
    if c1 ≠ 0 ∧ c2 ≠ 0 then
      if c1 ≠ c2 then some false else streq str1 str2
    else some (decide (c1 = 0 ∧ c2 = 0))
  | _, _ => none

def helpText : List Byte := text ['h', 'e', 'l', 'p']
def tetrisText : List Byte := text ['t', 'e', 't', 'r', 'i', 's']
def promptText : List Byte := text ['>']
def newlineText : List Byte := text ['\n']
def commandsText : List Byte := text ['C', 'o', 'm', 'm', 'a', 'n', 'd', 's', ':', '\n']
def aboutHelpText : List Byte := text
  [' ', 'h', 'e', 'l', 'p', ' ', '-', ' ', 'D', 'i', 's', 'p', 'l', 'a', 'y', ' ', 't', 'h', 'i',
    's', ' ', 't', 'e', 'x', 't', '\n']
def aboutTetrisText : List Byte := text
  [' ', 't', 'e', 't', 'r', 'i', 's', ' ', '-', ' ', 'P', 'l', 'a', 'y', ' ', 't', 'e', 't', 'r',
    'i', 's', '\n']
def unrecognizedText : List Byte := text
  ['U', 'n', 'r', 'e', 'c', 'o', 'g', 'n', 'i', 'z', 'e', 'd', ' ', 'c', 'o', 'm', 'm', 'a', 'n',
    'd', '\n']
def welcomeText : List Byte := text
  ['W', 'e', 'l', 'c', 'o', 'm', 'e', ' ', 't', 'o', ' ', 'B', 'i', 'k', 'e', 's', 'h', 'e', 'd',
    '6', '4', '!']

/-- `str`, its NUL included: `STR_SIZE` counts it. -/
def str : List Byte := text
  ['A', 'B', 'C', 'D', 'E', 'F', 'G', 'H', 'I', 'J', 'K', 'L', 'M', 'N', 'O', 'P', 'Q', 'R', 'S',
    'T', 'U', 'V', 'W', 'X', 'Y', 'Z', '1', '2', '3', '4', '5', '6', '7', '8', '9', '0', '!', '@',
    '#', '$', '%', '&', '*'] ++ [0]

def strSize : ℕ := 44

/-! ## The banner -/

/-- One round of the loop of `fancy_display_char`. -/
def fancyRound (s : State) : Option State := do
  let next := Tetris.nextRandom s.next
  let c ← str[(Tetris.random32 next).toNat % strSize]?
  let screen ← setVideo (s.screen.y.toNat * maxX + s.screen.x.toNat) c textColor s.screen
  some { s with next, screen }

def fancyDisplayChar (c : Byte) (s : State) : Option State := do
  let s ← if c ≠ 0x20 then (List.range 10).foldlM (fun s _ => fancyRound s) s else some s
  let screen ← textModeChar c s.screen
  some { s with screen }

def displayBanner (s : State) : Option State :=
  welcomeText.foldlM (fun s c => fancyDisplayChar c s) s

/-! ## Reading a command -/

def writeChar (c : Byte) (s : Screen) : Option Screen := do
  let s ← if s.y = 0 ∧ s.x = 0 then clearScreen s else some s
  textModeChar c s

def writeString (str : List Byte) (s : Screen) : Option Screen :=
  str.foldlM (fun s c => writeChar c s) s

/-- `command[command_length] = c` -/
def setCommand (c : Byte) (s : State) : Option State :=
  if s.commandLength.toNat < s.command.length then
    some { s with command := s.command.set s.commandLength.toNat c }
  else none

def echo (key : Byte) (s : State) : Option State := do
  let screen ← writeChar key s.screen
  some { s with screen }

/-- A round of the loop of `read_command` for a key that is no newline. -/
def pressKey (key : Byte) (s : State) : Option State :=
  if key = backspaceKey then
    if s.commandLength > 0 then echo key { s with commandLength := s.commandLength - 1 } else some s
  else do
    let s ← setCommand key s
    echo key { s with commandLength := s.commandLength + 1 }

/-- The loop has read a line and has left these keys, or it waits for the next key. -/
inductive Reading where
  | line (rest : List Byte)
  | waiting

/-- The loop of `read_command`. -/
def readLoop : List Byte → State → Option (Reading × State)
  | [], s =>
    if s.commandLength.toNat < commandSize - 1 then some (.waiting, s) else some (.line [], s)
  | key :: keys, s =>
    if s.commandLength.toNat < commandSize - 1 then
      if key = newlineKey then
        if s.commandLength > 0 then some (.line keys, s) else readLoop keys s
      else do
        let s ← pressKey key s
        readLoop keys s
    else some (.line (key :: keys), s)

/-- The end of `read_command`. -/
def endCommand (s : State) : Option State := do
  let s ← setCommand 0 s
  let screen ← writeString newlineText s.screen
  some { s with screen }

def readCommand (keys : List Byte) (s : State) : Option (Reading × State) := do
  let screen ← writeString promptText s.screen
  let (r, s) ← readLoop keys { s with screen, commandLength := 0 }
  match r with
  | .waiting => some (.waiting, s)
  | .line rest => do
    let s ← endCommand s
    some (.line rest, s)

/-! ## Running it -/

inductive Ran where
  | help | tetris | unrecognized
deriving DecidableEq

/-- `check_command` up to the call of `tetris`. -/
def checkCommand (s : State) : Option (Ran × State) := do
  let isHelp ← streq (helpText ++ [0]) s.command
  if isHelp = true then
    let screen ← writeString commandsText s.screen
    let screen ← writeString aboutHelpText screen
    let screen ← writeString aboutTetrisText screen
    some (.help, { s with screen })
  else
    let isTetris ← streq (tetrisText ++ [0]) s.command
    if isTetris = true then some (.tetris, s)
    else
      let screen ← writeString unrecognizedText s.screen
      some (.unrecognized, { s with screen })

/-- `check_command` after the call of `tetris`, which has left its screen and its `next`. -/
def afterTetris (screen : Screen) (next : BitVec 32) (s : State) : Option State := do
  let screen ← clearScreen screen
  some { s with next, screen := { textSetPos 0 0 screen with color := textColor } }

/-- `shell_loop` before its loop. -/
def startShell (s : State) : Option State := do
  let screen ← clearScreen (textSetPos 0 0 s.screen)
  let s ← displayBanner { s with screen }
  some { s with screen := textSetPos 0 1 s.screen }

/-- The variables when the program starts, with any contents of the video memory. -/
def loaded (video : ℕ → VideoCell) : State where
  command := List.replicate commandSize 0
  commandLength := 0
  next := 0xC001C0DE
  screen := ⟨video, 0, 0, textColor⟩

/-- A character that `check_scan_code` stores in the keyboard's buffer. -/
def FromKeyboard (key : Byte) : Prop :=
  key ≠ 0 ∧ ∃ shiftdown code, key = Keyboard.scanCodeTable shiftdown code

/-- The shell before it reads a command. -/
inductive Session : State → Prop
  | start {video : ℕ → VideoCell} {s : State} : startShell (loaded video) = some s → Session s
  | command {s s1 s2 : State} {keys rest : List Byte} {r : Ran} : Session s →
      (∀ key ∈ keys, FromKeyboard key) → readCommand keys s = some (.line rest, s1) →
      checkCommand s1 = some (r, s2) → r ≠ .tetris → Session s2
  | game {s s1 s2 s3 : State} {keys rest : List Byte} {p : Tetris.Shown} {pieces lines : ℕ} :
      Session s → (∀ key ∈ keys, FromKeyboard key) →
      readCommand keys s = some (.line rest, s1) → checkCommand s1 = some (.tetris, s2) →
      Tetris.Plays p pieces lines → p.game.quit = true →
      afterTetris p.screen p.game.next s2 = some s3 → Session s3

end Bikeshed.Shell
