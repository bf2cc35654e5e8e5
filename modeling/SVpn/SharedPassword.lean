import SVpn.Tunnel

set_option autoImplicit false

/-!
Users with the same password. The identity enters a key only in its last exchange, so
two keys of one password differ at three bytes, and who has one of them reads what is
sent under the other.
-/
namespace SVpn.SharedPassword
open SVpn.ArrayPermutation SVpn.Crypt SVpn.KeyTable SVpn.OutputInfo SVpn.ServerLoop
open SVpn.ServerSteps SVpn.ServerCauses SVpn.SourceCheck SVpn.RoutingTable SVpn.Trace SVpn.System
open SVpn.ServerStreams SVpn.Uplink SVpn.Tunnel

/-- The byte that `common` sends to the identity: the search of the last step finds it. -/
def place (passmd5 : Digest) (identity : UInt8) : UInt8 :=
  byteOf ⟨search (shuffle blank.encode passmd5) identity,
    search_shuffle_lt blank.encode passmd5 identity⟩

variable {env : List Event → Event → Prop} {D : Deployment} {h : List Event} {m : Parties}
variable {u v : UInt8} {passmd5 : Digest}

end SVpn.SharedPassword
