import Attire.Id
import Attire.Sha256

namespace Attire

/-! Random numbers of one object.  The first draw of a tick hashes the object's identifier and
the tick; every later draw of that tick hashes the state before it. -/

structure RandomStream where
  tick : Option Nat := none
  state : List UInt8 := []
deriving DecidableEq, Inhabited, Repr

namespace RandomStream

/-- The first state of the stream of `id` in `tick`. -/
def seed (id : Id) (tick : Nat) : List UInt8 :=
  Sha256.digest (id.text ++ ":" ++ toString tick).toUTF8.toList

/-- The top 53 bits of the first eight bytes. -/
def numerator (state : List UInt8) : Nat :=
  (state.take 8).foldl (fun word byte => 256 * word + byte.toNat) 0 >>> 11

/-- A number of `[0, 1)`. -/
def fraction (state : List UInt8) : Float := Float.ofNat (numerator state) / 9007199254740992.0

def next (stream : RandomStream) (id : Id) (tick : Nat) : Float × RandomStream :=
  let state := if stream.tick = some tick then Sha256.digest stream.state else seed id tick
  (fraction state, { tick := some tick, state })

end RandomStream

end Attire
