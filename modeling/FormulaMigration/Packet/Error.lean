import FormulaMigration.Disk
import FormulaMigration.Json.Reading
import FormulaMigration.Text.Quoted

namespace FormulaMigration

inductive PacketError
  | file (error : FileError)
  | malformedFixture (path : Path) (fault : JsonFault)
  | reportWithoutPacket
  | packetRequired
  | malformedGate
  | gatesFailed (failures : List Text)
deriving DecidableEq

namespace PacketError

def name : PacketError → Text
  | file _ => "Io".toList
  | malformedFixture _ _ | reportWithoutPacket | packetRequired => "FixtureFormat".toList
  | malformedGate => "Yaml".toList
  | gatesFailed _ => "GateFailed".toList

def mark : PacketError → Text
  | malformedFixture _ _ | reportWithoutPacket | packetRequired => "fixture format error: ".toList
  | gatesFailed _ => "packet gates failed: ".toList
  | file _ | malformedGate => []

def text : PacketError → Text
  | file e => e.message
  | malformedFixture path fault => path ++ ": ".toList ++ fault.message
  | reportWithoutPacket => "report has no packet_id".toList
  | packetRequired => "packet_id is required".toList
  | malformedGate => "malformed gate".toList
  | gatesFailed failures => Text.join [' ', '|', ' '] failures

def message (e : PacketError) : Text :=
  e.mark ++ e.text

def details (e : PacketError) : Text :=
  e.name ++ '(' :: (match e with
    | file e => e.details
    | e => e.text.quoteSeen) ++ [')']

end PacketError

end FormulaMigration
