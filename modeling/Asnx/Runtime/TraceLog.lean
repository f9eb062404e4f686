import Asnx.Library.Threads
import Mathlib.Algebra.Group.Nat.Defs

/-!
# The trace logger

`trace_log_printf`, `trace_log_pump` and `trace_log_flush` of `source/trace_log.c` while the file
is open, as threads that take atomic steps: what a thread does while it holds `g_trace_lock` is
one, and so is a write to the file. A line is what `trace_log_printf` has formatted; one that is
filtered out, or that cannot be formatted, never comes to the lock and is not a line here. A file
is the pieces that have been written to it. When the last pump was is up to the environment, which
says whether a pump is due.
-/

namespace Asnx.Runtime.Trace

open Threads

/-- `TRACE_BANK_BYTES` -/
def traceBankBytes : Nat := 256 * 1024

/-- A formatted line. -/
abbrev Line := List UInt8

/-- A write to the file. -/
inductive Piece where
  | bytes (content : List UInt8)
  /-- `dropped=%u lines (buffer full)` -/
  | dropped (n : Nat)
  deriving DecidableEq

/-- The static variables; a bank is 0 or 1. Of the bytes of a bank those are listed that have been
stored; the others are never written to the file. -/
structure TraceState where
  gTraceActive : Bool
  gTraceLen : Bool → Nat
  gTraceBuf : Bool → List UInt8
  gTraceDropped : Nat
  file : List Piece

/-- Where a thread is. -/
inductive Pc where
  | idle
  /-- At the lock of `trace_log_printf`. -/
  | append (line : Line)
  /-- At the lock of `trace_pump_force`. -/
  | switch
  /-- At the writes of the bank `old`, which has `len` bytes, and of the number of dropped lines. -/
  | write (old : Bool) (len dropped : Nat)
  | report (old : Bool) (dropped : Nat)
  /-- At the second lock. -/
  | clear (old : Bool)
  deriving DecidableEq

/-- The calls. `force` is that of `trace_pump_force`. -/
inductive Request where
  | printf (line : Line)
  | pump (force : Bool)

/-- What the environment decides: the next call, and whether a pump that is not forced is due. -/
structure Choice where
  request : Request
  due : Bool

/-- What a step is seen to do. -/
inductive Event where
  | inner
  | kept (line : Line)
  | drops (line : Line)
  deriving DecidableEq

/-- What a step comes to. -/
abbrev Outcome := Option (Event × TraceState × Pc)

/-- `memcpy(buf + len, line, n)` -/
def memcpy (buf : List UInt8) (len : Nat) (line : Line) : List UInt8 :=
  buf.take len ++ line ++ buf.drop (len + line.length)

/-- The part of `trace_log_printf` under the lock. -/
def appendStep (s : TraceState) (line : Line) : Outcome :=
  let b := s.gTraceActive
  if line.length ≤ traceBankBytes - s.gTraceLen b then
    some (.kept line, { s with
      gTraceBuf := Function.update s.gTraceBuf b (memcpy (s.gTraceBuf b) (s.gTraceLen b) line)
      gTraceLen := Function.update s.gTraceLen b (s.gTraceLen b + line.length) }, .idle)
  else some (.drops line, { s with gTraceDropped := (s.gTraceDropped + 1) % 2 ^ 32 }, .idle)

/-- The part of `trace_pump_force` under its first lock. -/
def switchStep (s : TraceState) : Outcome :=
  let old := s.gTraceActive
  let next := !old
  if s.gTraceLen next ≠ 0 then some (.inner, s, .idle)
  else
    some (.inner, { s with gTraceDropped := 0, gTraceActive := next },
      .write old (s.gTraceLen old) s.gTraceDropped)

/-- The next step of a thread. -/
def traceNext (x : Choice) (s : TraceState) : Pc → Outcome
  | .idle =>
      match x.request with
      | .printf line =>
          if line = [] then some (.inner, s, .idle) else some (.inner, s, .append line)
      | .pump force =>
          if !force && !x.due then some (.inner, s, .idle) else some (.inner, s, .switch)
  | .append line => appendStep s line
  | .switch => switchStep s
  | .write old len dropped =>
      if len ≠ 0 then
        some (.inner, { s with file := s.file ++ [.bytes ((s.gTraceBuf old).take len)] },
          .report old dropped)
      else some (.inner, s, .report old dropped)
  | .report old dropped =>
      if dropped ≠ 0 then
        some (.inner, { s with file := s.file ++ [.dropped dropped] }, .clear old)
      else some (.inner, s, .clear old)
  | .clear old => some (.inner, { s with gTraceLen := Function.update s.gTraceLen old 0 }, .idle)

/-- The threads that use the logger. -/
def logger : Program TraceState Pc Choice Event := ⟨traceNext⟩

/-- `trace_log_init` has opened the file, and no other call has begun. -/
structure Initial {T : Type*} (c : Config T TraceState Pc) : Prop where
  idle : ∀ t, c.locals t = .idle
  active : c.shared.gTraceActive = false
  len : ∀ b, c.shared.gTraceLen b = 0
  buf : ∀ b, c.shared.gTraceBuf b = []
  dropped : c.shared.gTraceDropped = 0
  file : c.shared.file = []

end Asnx.Runtime.Trace
