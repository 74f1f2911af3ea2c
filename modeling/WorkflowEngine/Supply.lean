import WorkflowEngine.Timestamp
import WorkflowEngine.Uuid

/-!
# Fresh identifiers and moments

Where new identifiers and the time of day come from. Every identifier drawn differs from those before,
and every reading of the clock is later than those before.
-/
namespace WorkflowEngine

structure Supply where
  /-- The bits of the next identifier. -/
  nextId : Nat := 0
  /-- Nanoseconds since the start of 1970. -/
  clock : Nat := 1704067200000000000
  deriving Inhabited

namespace Supply

def drawId (supply : Supply) : Uuid × Supply :=
  (Uuid.version4 supply.nextId, { supply with nextId := supply.nextId + 1 })

def now (supply : Supply) : Timestamp × Supply :=
  (Timestamp.ofUnix (supply.clock / 1000000000) (supply.clock % 1000000000),
    { supply with clock := supply.clock + 1 })

/-- Let a number of milliseconds pass. -/
def elapse (supply : Supply) (milliseconds : Nat) : Supply :=
  { supply with clock := supply.clock + milliseconds * 1000000 }

end Supply

end WorkflowEngine
