import JoshOS.Lib.Escape

/-!
The network part of the control service (`network-control.py`).

A string of Python is a list of characters here.  What a command of NetworkManager prints is
chosen by the environment; the texts that the service makes of it are computed as the code
does, from the stripped output on.

* `strip`, `splitlines`: the two string methods that every output goes through.
* `splitNmcli`: the fields of a line of terse output.
* `wifiDevice`, `networkStatus`, `wifiScan`: what is asked for.
* `Row`, `listing`, `shown`: terse output of NetworkManager, as it is assumed to be escaped.
-/

namespace JoshOS.Control

abbrev Text := List Char

instance lawfulBEqText : LawfulBEq Text := inferInstance

/-! ### Strings -/

/-- `str.isspace` of a single character. -/
def isSpace (c : Char) : Bool :=
  let n := c.toNat
  (9 ≤ n && n ≤ 13) || (28 ≤ n && n ≤ 32) || n == 0x85 || n == 0xa0 || n == 0x1680 ||
    (0x2000 ≤ n && n ≤ 0x200a) || n == 0x2028 || n == 0x2029 || n == 0x202f || n == 0x205f ||
    n == 0x3000

/-- `str.strip`. -/
def strip (text : Text) : Text := (text.dropWhile isSpace).rdropWhile isSpace

/-- The characters at which `str.splitlines` splits. -/
def isLineBreak (c : Char) : Bool :=
  let n := c.toNat
  (10 ≤ n && n ≤ 13) || (28 ≤ n && n ≤ 30) || n == 0x85 || n == 0x2028 || n == 0x2029

/-- The line ends of Python, where `\r\n` is one. -/
def lineEnds : Lines.Ends Char where
  isBreak := isLineBreak
  ret := '\r'
  feed := '\n'
  ret_isBreak := rfl
  feed_isBreak := rfl
  feed_ne_ret := by decide

/-- `str.splitlines`. -/
def splitlines (text : Text) : List Text := Lines.split lineEnds text

/-- Methods of Python's strings that are taken over as they are: the conversion to an
integer, the conversion to small letters, and the test for letters and digits. -/
structure Python where
  int : Text → Option ℤ
  lower : Text → Text
  isAlnum : Char → Bool
  isAlnum_ascii : ∀ c : Char, c.toNat < 128 → isAlnum c = c.isAlphanum

/-- These methods on texts of ASCII. -/
def Python.ascii : Python where
  int text :=
    if text ≠ [] ∧ text.all Char.isDigit then
      some (text.foldl (fun n c => 10 * n + (c.toNat - 48)) 0)
    else none
  lower := List.map Char.toLower
  isAlnum := Char.isAlphanum
  isAlnum_ascii _ _ := rfl

/-! ### Fields -/

/-- The escape character and the separator of terse output. -/
def terse : Escape.Marks Char := ⟨'\\', ':', by decide⟩

def splitNmcli (line : Text) : List Text := Escape.split terse line

/-! ### Commands -/

/-- The calls of `nmcli`. -/
inductive Command where
  | generalState
  | generalConnectivity
  | radioWifi
  | deviceStatus
  | deviceShow (device : Text)
  | wifiList (device : Text) (rescan : Bool)
  deriving DecidableEq, Repr

/-- The exit code and the output of every command. -/
abbrev Environment := Command → ℤ × Text

/-- `run`: the exit code, and the output as `subprocess` reads text, without white space at its
ends. -/
def run (env : Environment) (command : Command) : ℤ × Text :=
  ((env command).1, strip (Lines.translate lineEnds (env command).2))

def wifiDevice (env : Environment) : Option Text :=
  let (code, out) := run env .deviceStatus
  if code ≠ 0 then none
  else
    (splitlines out).findSome? fun line =>
      match splitNmcli line with
      | name :: type :: _ => if type = "wifi".toList then some name else none
      | _ => none

/-- A text, or another one in place of an empty text. -/
def orElse (text other : Text) : Text := if text = [] then other else text

/-- The fields of the answer of `network_status` that come from NetworkManager. -/
structure NetworkStatus where
  state : Text
  connectivity : Text
  wifiRadio : Text
  wifiDevice : Option Text
  wifiState : Text
  connection : Text
  deriving DecidableEq, Repr

/-- A dictionary after a line of `device show`. -/
def addDetail (values : Text → Option Text) (line : Text) : Text → Option Text :=
  match splitNmcli line with
  | key :: field :: fields =>
    Function.update values key (some ([':'].intercalate (field :: fields)))
  | _ => values

def networkStatus (env : Environment) : NetworkStatus :=
  let state := (run env .generalState).2
  let connectivity := (run env .generalConnectivity).2
  let radio := (run env .radioWifi).2
  let device := wifiDevice env
  let (wifiState, connection) :=
    match device with
    | none | some [] => ("unavailable".toList, [])
    | some device =>
      let detail := (run env (.deviceShow device)).2
      let values := (splitlines detail).foldl addDetail fun _ => none
      ((values "GENERAL.STATE".toList).getD "unknown".toList,
        (values "GENERAL.CONNECTION".toList).getD [])
  { state := orElse state "unknown".toList
    connectivity := orElse connectivity "unknown".toList
    wifiRadio := orElse radio "unknown".toList
    wifiDevice := device
    wifiState := wifiState
    connection := if connection ≠ "--".toList then connection else [] }

/-! ### The networks in range -/

/-- An entry of the answer of `wifi_scan`. -/
structure Network where
  ssid : Text
  security : Text
  signal : ℤ
  active : Bool
  deriving DecidableEq, Repr

/-- The entry of a row of four fields. -/
def network (py : Python) (active ssid security signal : Text) : Network where
  ssid := ssid
  security := orElse security "Open".toList
  signal := (py.int signal).getD 0
  active := active = "*".toList

/-- One line: its network is taken if it has a name that was not seen before. -/
def scanLine (py : Python) (s : List Network × List Text) (line : Text) :
    List Network × List Text :=
  match splitNmcli line with
  | [active, ssid, security, signal] =>
    if ssid = [] ∨ ssid ∈ s.2 then s
    else (s.1 ++ [network py active ssid security signal], s.2 ++ [ssid])
  | _ => s

/-- The order of the answer: active networks first, then by signal, then by name. -/
def Before (py : Python) (a b : Network) : Prop :=
  toLex (!a.active, toLex (-a.signal, py.lower a.ssid)) ≤
    toLex (!b.active, toLex (-b.signal, py.lower b.ssid))

instance (py : Python) : DecidableRel (Before py) := fun a b =>
  inferInstanceAs (Decidable (toLex (!a.active, toLex (-a.signal, py.lower a.ssid)) ≤
    toLex (!b.active, toLex (-b.signal, py.lower b.ssid))))

def wifiScan (py : Python) (env : Environment) (rescan : Bool) : List Network :=
  match wifiDevice env with
  | none | some [] => []
  | some device =>
    let (code, out) := run env (.wifiList device rescan)
    if code ≠ 0 then []
    else ((splitlines out).foldl (scanLine py) ([], [])).1.insertionSort (Before py)

/-! ### What NetworkManager prints -/

/-- A row of the list of networks; `mark` is a star if the network is in use. -/
structure Row where
  mark : Text
  ssid : Text
  security : Text
  signal : Text
  deriving DecidableEq, Repr

/-- The network of the row is in use. -/
def Row.inUse (r : Row) : Bool := r.mark = "*".toList

/-- The line of a row. -/
def Row.line (r : Row) : Text := Escape.join terse [r.mark, r.ssid, r.security, r.signal]

/-- The output for a list of rows. -/
def listing (rows : List Row) : Text := rows.flatMap fun r => r.line ++ ['\n']

/-- The output of `device show` for a state and the name of a connection. -/
def shown (state connection : Text) : Text :=
  Escape.join terse ["GENERAL.STATE".toList, state] ++ ['\n'] ++
    Escape.join terse ["GENERAL.CONNECTION".toList, connection] ++ ['\n']

end JoshOS.Control
