import Srsirc.Dictionary
import Srsirc.Message

namespace Srsirc.ServerInfo

open CharMap Dictionary

def MAX_UMODES_LEN : Nat := 64
def MAX_CMODES_LEN : Nat := 64
def MAX_VER_LEN : Nat := 128
def MAX_005_CHMD : Nat := 64
def MAX_005_MDPFX : Nat := 32
def MAX_005_CHTYP : Nat := 16

def DEF_UMODES : Str := ascii "iswo"
def DEF_CMODES : Str := ascii "opsitnml"

structure Info where
  mynick : Str
  myhost : Str
  service : Bool
  cmodes : Str
  umodes : Str
  myumodes : Str
  ver : Str
  lasterr : Option Str
  restricted : Bool
  banned : Bool
  banmsg : Option Str
  casemap : CMap
  logonconv : List (Option (List (Option Str)))
  m005chanmodes : List Str
  m005modepfx : Str × Str
  m005chantypes : Str
  m005attrs : Dict 256 Str

/-- What `reset_state` and `irc_connect` begin with. -/
def Info.init : Info where
  mynick := []
  myhost := []
  service := false
  cmodes := DEF_CMODES
  umodes := DEF_UMODES
  myumodes := []
  ver := []
  lasterr := none
  restricted := false
  banned := false
  banmsg := none
  casemap := .rfc1459
  logonconv := List.replicate 4 none
  m005chanmodes := [ascii "b", ascii "k", ascii "l", ascii "psitnm"]
  m005modepfx := (ascii "ov", ascii "@+")
  m005chantypes := ascii "#&"
  m005attrs := .init 256 Str .ascii

def classifyChanmode (info : Info) (c : UInt8) : Nat :=
  match info.m005chanmodes.findIdx? fun modes => (Message.strchr modes c).isSome with
  | some z => z + 1
  | none => 0

end Srsirc.ServerInfo
