/-!
# Powers
-/

namespace RemoteSigning.Number

/-- A power with a natural exponent is always the one that comes with the type of its base, also where
a library offers another one for the same type. -/
@[default_instance 20000]
instance (priority := 20000) powOfBase {α : Type} [NatPow α] : Pow α Nat := instPowNat

end RemoteSigning.Number
