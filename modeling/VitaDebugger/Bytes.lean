import Mathlib.Data.Nat.Notation

/-! Bytes in a row: texts, records, packets and payloads as the code reads and writes them. -/

namespace VitaDebugger

abbrev Bytes := List UInt8

instance lawfulBytes : LawfulBEq Bytes := inferInstance

end VitaDebugger
