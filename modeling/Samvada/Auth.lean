import Samvada.Frame

/- dbus_auth.cyr: the SASL EXTERNAL exchange. The server's lines are read from
   the framer's buffer and consumed there; what is left is the binary stream. -/
namespace Samvada
open Octets

inductive AuthStatus where
  | ok
  | needMore
  | rejected
  | error
  deriving DecidableEq, Repr

/-- The file-scope state of the exchange. -/
structure Auth where
  sawOk : Bool := false
  sawAgree : Bool := false
  deriving DecidableEq, Repr

/-- The client's one pipelined write. -/
def dbusAuthBlob : Bytes := 0 :: lit "AUTH EXTERNAL\r\nDATA\r\nNEGOTIATE_UNIX_FD\r\nBEGIN\r\n"

example : dbusAuthBlob.length = 48 := by decide

/-- The index of the first CRLF. -/
def dbusAuthFindCrlf : Bytes → Option Nat
  | a :: b :: rest => if a = 13 ∧ b = 10 then some 0 else (dbusAuthFindCrlf (b :: rest)).map (· + 1)
  | _ => none

def dbusAuthStarts (line : Bytes) (s : String) : Bool := (lit s).isPrefixOf line

def isHexDigit (c : UInt8) : Bool :=
  (48 ≤ c && c ≤ 57) || (97 ≤ c && c ≤ 102) || (65 ≤ c && c ≤ 70)

/-- `OK <guid>` with a GUID of exactly 32 hex digits. -/
def dbusAuthIsOk (line : Bytes) : Bool :=
  line.length == 35 && dbusAuthStarts line "OK " && (line.drop 3).all isHexDigit

/-- What a server line is; an OK without a valid GUID is an ERROR. -/
inductive AuthLine where
  | data
  | ok
  | agreeUnixFd
  | rejected
  | error
  | other
  deriving DecidableEq, Repr

def dbusAuthLineKind (line : Bytes) : AuthLine :=
  if dbusAuthStarts line "DATA" then .data
  else if dbusAuthStarts line "OK " then if dbusAuthIsOk line then .ok else .error
  else if dbusAuthStarts line "AGREE_UNIX_FD" then .agreeUnixFd
  else if dbusAuthStarts line "REJECTED" then .rejected
  else if dbusAuthStarts line "ERROR" then .error
  else .other

def dbusAuthDrainN : Nat → Frame → Auth → AuthStatus × Frame × Auth
  | 0, f, a => (.needMore, f, a)
  | n + 1, f, a =>
    match dbusAuthFindCrlf (dbusFrameBase f) with
    | none => (.needMore, f, a)
    | some i =>
      let kind := dbusAuthLineKind ((dbusFrameBase f).take i)
      let f := dbusFrameConsume f (i + 2)
      match kind with
      | .rejected => (.rejected, f, a)
      | .error => (.error, f, a)
      | .ok => dbusAuthDrainN n f { a with sawOk := true }
      | .agreeUnixFd => if a.sawOk then (.ok, f, { a with sawAgree := true }) else (.error, f, a)
      | .data => dbusAuthDrainN n f a
      | .other => dbusAuthDrainN n f a

/-- Consume the complete lines buffered; each is two bytes at least. -/
def dbusAuthDrainLines (f : Frame) (a : Auth) : AuthStatus × Frame × Auth :=
  dbusAuthDrainN (dbusFrameHave f + 1) f a

end Samvada
