import Docweave.Fault

namespace Docweave.Text

def digitsFrom : Nat → List Char → Option Nat
  | n, [] => some n
  | n, '_' :: c :: rest => (digitValue c).bind fun d => digitsFrom (n * 10 + d) rest
  | n, c :: rest => (digitValue c).bind fun d => digitsFrom (n * 10 + d) rest

def natural? : List Char → Option Nat
  | [] => none
  | c :: rest => (digitValue c).bind fun d => digitsFrom d rest

def whole? (s : String) : Option Int :=
  match trim s.toList with
  | '-' :: rest => (natural? rest).map fun n => -(n : Int)
  | '+' :: rest => (natural? rest).map Int.ofNat
  | cs => (natural? cs).map Int.ofNat

def whole (s : String) : Except Fault Int :=
  match whole? s with
  | some n => .ok n
  | none => .error (.notNumber s)

def wholeOf (what : String) : Option String → Except Fault Int
  | some s => whole s
  | none => .error (.missing what)

end Docweave.Text
