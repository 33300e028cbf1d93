import HuronFS.Common.Wire

/-!
# `Protocol.MasterList` — the numbers of the Masters (`parse_master_config_ip`)

Masters and clients are given the same list of addresses, separated by commas. Each walks down its own copy with
`parse_master_config_ip`, which copies one item out and returns where the next one begins, or null at the end of the string.
A Master looks for the item that is one of its own addresses (`_set_master_number_size`); a client connects to each item in
turn and keeps the handles in that order (`_register_to_master`). What a path is hashed to is an index of either.

`items` says what the walk should give.
-/

namespace HuronFS

open Wire Region

abbrev IP_STRING_LEN : Nat := 20

namespace MasterList

def comma : Byte := 44

/-! ## The walk -/

/-- The character at an offset, the zero byte at the end among them. -/
def charAt (s : CString) (i : Nat) : Byte := s.bytes[i]?.getD 0

/-- `strchr`, from an offset on. -/
def strchr (s : CString) (start : Nat) (c : Byte) : Option Nat := ((s.bytes.drop start).findIdx? (· == c)).map (start + ·)

/-- The loop that goes to the zero byte. -/
def strEnd (s : CString) (start : Nat) : Nat := start + ((s.bytes.drop start).takeWhile (· != 0)).length

/-- `strncpy`, and the zero byte after it. `none`: it does not fit. -/
def copyOut (room : Nat) (s : CString) (start stop : Nat) (des : Nat → Byte) : Option (Nat → Byte) :=
  if stop - start < room then some (patch (patch des 0 ((s.bytes.drop start).take (stop - start))) (stop - start) [0]) else none

/-- `parse_master_config_ip`: the pointer it returns, and the destination. -/
def parseMasterConfigIp (room : Nat) (s : CString) (start : Nat) (des : Nat → Byte) : Option (Option Nat × (Nat → Byte)) :=
  let nextMasterIp := strchr s start comma
  if charAt s start = 0 then some (none, des)
  else
    match nextMasterIp with
    | none =>
        let nextMasterIp := strEnd s start
        (copyOut room s start nextMasterIp des).map (fun des => (some nextMasterIp, des))
    | some nextMasterIp => (copyOut room s start nextMasterIp des).map (fun des => (some (nextMasterIp + 1), des))

/-- The string in a buffer. -/
def stringIn (room : Nat) (des : Nat → Byte) : List Byte := (slice des 0 room).takeWhile (· != 0)

/-- The `while` loop of both callers: its body has the item in the destination, and may return. Each turn moves the pointer
    on, which gives the fuel. -/
def eachMaster {σ ε : Type} (room : Nat) (s : CString) (body : σ → List Byte → Except ε σ) :
    (fuel start : Nat) → (Nat → Byte) → σ → Option (Except ε σ)
  | 0, _, _, _ => none
  | fuel + 1, start, des, st =>
      match parseMasterConfigIp room s start des with
      | none => none
      | some (none, _) => some (.ok st)
      | some (some next, des) =>
          match body st (stringIn room des) with
          | .error e => some (.error e)
          | .ok st => eachMaster room s body fuel next des st

/-- The loop from the beginning of the string. -/
def walk {σ ε : Type} (room : Nat) (s : CString) (body : σ → List Byte → Except ε σ) (des : Nat → Byte) (st : σ) : Option (Except ε σ) :=
  eachMaster room s body (s.bytes.length + 1) 0 des st

/-! ## The callers -/

/-- `SCBB`, as it is made: its IOnodes come later. -/
structure MasterEntry where
  id : Nat
  masterHandle : Handle
deriving DecidableEq, Repr

/-- What `_register_to_master` has so far. -/
structure Registered where
  counter : Nat
  ret : Int
  masterHandleList : List MasterEntry
deriving DecidableEq, Repr

/-- The body of its loop. `connect` is what the query to a Master gives, by its turn: the number that is popped and the
    handle, or an exception. -/
def registerOne (connect : Nat → List Byte → Option (Int × Handle)) (st : Registered) (masterIp : List Byte) : Except Unit Registered :=
  match connect st.counter masterIp with
  | none => .error ()
  | some (ret, handle) => .ok ⟨st.counter + 1, ret, st.masterHandleList ++ [⟨st.counter, handle⟩]⟩

/-- `_register_to_master`; an error is `-1` for a Master that cannot be reached. -/
def registerToMaster (connect : Nat → List Byte → Option (Int × Handle)) (s : CString) (masterIp : Nat → Byte) :
    Option (Except Unit Registered) :=
  walk IP_STRING_LEN s (registerOne connect) masterIp ⟨0, 0, []⟩

/-! ## What the walk should give -/

/-- The items of a list: what stands between the commas, but for an empty last one. -/
def items (l : List Byte) : List (List Byte) :=
  let parts := l.splitOn comma
  if parts.getLast? = some [] then parts.dropLast else parts

variable {room : Nat} {s : CString} {start : Nat}

section

variable {inetPton : List Byte → Option InAddr} {interfaces : List (Option InAddr)}

end

/-- `1.1.1.1,1.1.1.2,`: the second is the address of an interface, and the comma at the end adds nothing. -/
def twoMasters : CString := ⟨[49, 46, 49, 46, 49, 46, 49, 44, 49, 46, 49, 46, 49, 46, 50, 44], by decide⟩

end MasterList

end HuronFS
