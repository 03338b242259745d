/-!
# Machine words

The ranges of 64-bit words.  Whole numbers of a document are kept as integers when a signed or an
unsigned word holds them, positions are unsigned words, and a color component saturates as a signed
one.
-/

set_option autoImplicit false

namespace MapStyle.Word

def leastSigned : Int := -9223372036854775808

def greatestSigned : Int := 9223372036854775807

def greatest : Int := 18446744073709551615

/-- Whether a signed or an unsigned word holds an integer. -/
def holds (n : Int) : Bool := leastSigned ≤ n && n ≤ greatest

end MapStyle.Word
