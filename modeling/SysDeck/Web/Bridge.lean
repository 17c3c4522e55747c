/-! The envelope of the bridge commands. -/

namespace SysDeck.Web

inductive BridgeSource where
  | live
  | hybrid
  deriving DecidableEq

inductive BridgeResponse (Data : Type) where
  | ok (data : Data) (source : BridgeSource) (note : Option String)
  | fail (error : String) (source : BridgeSource)
  deriving DecidableEq

namespace BridgeResponse

variable {Data : Type}

def data? : BridgeResponse Data → Option Data
  | ok data _ _ => some data
  | fail _ _ => none

end BridgeResponse

end SysDeck.Web
