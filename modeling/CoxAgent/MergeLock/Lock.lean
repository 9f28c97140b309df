import CoxAgent.Domain.Kinds
import CoxAgent.Lib.Interleaving
import Mathlib.Algebra.Ring.Int.Defs

-- The lease on a branch as it is stored.
structure LeaseDoc where
  holder         : String
  why            : String
  acquiredAtUnix : Int
  expiresAtUnix  : Int
deriving DecidableEq, Repr

-- The JSON encoding of leases. A document that is not a lease decodes to nothing.
structure LeaseCodec (J : Type) where
  ofLease         : LeaseDoc → J
  toLease         : J → Option LeaseDoc
  toLease_ofLease : ∀ doc, toLease (ofLease doc) = some doc

def LeaseCodec.plain : LeaseCodec LeaseDoc where
  ofLease           := id
  toLease           := some
  toLease_ofLease _ := rfl

-- The largest instant that fits a lease.
def i64Max : Int := 2 ^ 63 - 1

-- The documents with their revisions, and the clock in seconds.
structure KvStore (J : Type) where
  docs  : String → Option (J × Int) := fun _ => none
  clock : Nat                       := 0

namespace Kv

-- The requests of the lock to its backend, each of which is atomic. The clock moves on by itself.
inductive Req (J : Type)
  | now
  | currentVersion (key : String)
  | load (key : String)
  | saveExpecting (key : String) (json : J) (expected : Int)
  | save (key : String) (json : J)
  | tick (secs : Nat)

@[reducible]
def Rep {J : Type} : Req J → Type
  | .now                 => Int
  | .currentVersion _    => Option Int
  | .load _              => Option J
  | .saveExpecting _ _ _ => Except PortError Unit
  | .save _ _            => Except PortError Unit
  | .tick _              => Unit

@[reducible]
def iface (J : Type) : Iface where
  Req := Req J
  Rep := Rep

end Kv

-- A program that talks to the key-value store.
abbrev KvProg (J : Type) := Prog (Kv.iface J)

def kvAsk {J : Type} (q : Kv.Req J) : KvProg J (Kv.Rep q) :=
  Prog.request (I := Kv.iface J) q

namespace KvStore

variable {J : Type}

-- A document that was never written has revision 0.
def revision (w : KvStore J) (key : String) : Int :=
  w.docs key |>.elim 0 Prod.snd

def nowUnix (w : KvStore J) : Int :=
  min w.clock i64Max

def put (w : KvStore J) (key : String) (json : J) : KvStore J :=
  { w with docs := Function.update w.docs key (some (json, w.revision key + 1)) }

-- Insert, or update if the revision is the expected one.
def saveExpecting (w : KvStore J) (key : String) (json : J) (expected : Int) :
    Except PortError Unit × KvStore J :=
  match w.docs key with
  | none          => (.ok (), w.put key json)
  | some (_, rev) =>
    if rev = expected then
      (.ok (), w.put key json)
    else
      (.error (.conflict "kv doc changed since last read (concurrent writer)"), w)

end KvStore

open Kv in
def kv {J : Type} : Service (Kv.iface J) (KvStore J)
  | .now, w                         => (w.nowUnix, w)
  | .currentVersion key, w          => (some (w.revision key), w)
  | .load key, w                    => (w.docs key |>.map Prod.fst, w)
  | .saveExpecting key json rev, w  => w.saveExpecting key json rev
  | .save key json, w               => (.ok (), w.put key json)
  | .tick secs, w                   => ((), { w with clock := w.clock + secs })

variable {J : Type} (c : LeaseCodec J)

namespace KvMergeLock

def keyPrefix : String :=
  "merge-lock/"

def encodeChar : Char → List Char
  | '%'   => "%25".toList
  | ':'   => "%3A".toList
  | other => [other]

-- The key of the lease on a branch.
def mergeLockKey (branch : String) : String :=
  .ofList (keyPrefix.toList ++ branch.toList.flatMap encodeChar)

def readLease (key : String) : KvProg J (Option LeaseDoc) := do
  let json ← kvAsk (.load key)
  return json.bind c.toLease

-- Without a revision the write is blind.
def writeLease (key : String) (doc : LeaseDoc) : Option Int → KvProg J (Except PortError Unit)
  | some rev => kvAsk (.saveExpecting key (c.ofLease doc) rev)
  | none     => kvAsk (.save key (c.ofLease doc))

-- A lease may be taken if there is none, if it is the caller's own or if it has expired.
def takeoverAllowed (holder : String) (now : Int) : Option LeaseDoc → Bool
  | none       => true
  | some lease => lease.holder = holder || lease.expiresAtUnix < now

def grant (holder why : String) (now : Int) (ttlSecs : Nat) : LeaseDoc where
  holder         := holder
  why            := why
  acquiredAtUnix := now
  expiresAtUnix  := min (now + max ttlSecs 1) i64Max

def tryAcquire (key holder why : String) (ttlSecs : Nat) : KvProg J (Except PortError Bool) := do
  let now ← kvAsk .now
  let revision ← kvAsk (.currentVersion key)
  let incumbent ← readLease c key
  if takeoverAllowed holder now incumbent then
    match ← writeLease c key (grant holder why now ttlSecs) revision with
    | .ok _                => return .ok true
    | .error (.conflict _) => return .ok false
    | .error e             => return .error e
  else
    return .ok false

-- The document that stands for no lease.
def tombstone : LeaseDoc where
  holder         := ""
  why            := ""
  acquiredAtUnix := 0
  expiresAtUnix  := 0

-- The revision is not used: the tombstone is written blindly.
def deleteDoc (key : String) (_revision : Option Int) : KvProg J (Except PortError Bool) := do
  match ← writeLease c key tombstone none with
  | .ok _    => return .ok true
  | .error e => return .error e

def release (key holder : String) : KvProg J (Except PortError Bool) := do
  let revision ← kvAsk (.currentVersion key)
  match ← readLease c key with
  | none       => return .ok false
  | some lease =>
    if lease.holder ≠ holder then
      return .ok false
    else
      match ← deleteDoc c key revision with
      | .ok removed          => return .ok removed
      | .error (.conflict _) => return .ok false
      | .error e             => return .error e

end KvMergeLock

-- What a runner does with the lock: one call after the other, where each may depend on the results of
-- those before it.
inductive LockSession (holder : String) : KvProg J Unit → Prop
  | done : LockSession holder (.done ())
  | acquire {key why : String} {ttlSecs : Nat} {k : Except PortError Bool → KvProg J Unit} :
      (∀ r, LockSession holder (k r)) →
      LockSession holder (KvMergeLock.tryAcquire c key holder why ttlSecs >>= k)
  | release {key : String} {k : Except PortError Bool → KvProg J Unit} :
      (∀ r, LockSession holder (k r)) → LockSession holder (KvMergeLock.release c key holder >>= k)

-- The clock moves on at any time and by any amount.
def ticks : List Nat → KvProg J Unit
  | []            => .done ()
  | secs :: later => .call (.tick secs) fun _ => ticks later

-- Runners that share a store, and the clock.
def locking {ι : Type} (w : KvStore J) (prog : ι → KvProg J Unit) (secs : List Nat) :
    Sys (Kv.iface J) (Option ι) (KvStore J) Unit :=
  Sys.init w fun
    | some i => prog i
    | none   => ticks secs
