/-
Powers of two and of ten, as natural numbers.
-/
namespace Blockwork

def twoTo (exponent : Nat) : Nat := Nat.pow 2 exponent

def tenTo (exponent : Nat) : Nat := Nat.pow 10 exponent

end Blockwork
