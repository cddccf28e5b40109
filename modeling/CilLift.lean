import CilLift.Cache
import CilLift.Expr.Outline
import CilLift.Instruction.Encode
import CilLift.Proofs.Termination
import CilLift.Proofs.DefinitionOrder
import CilLift.Proofs.Placeholders
import CilLift.Proofs.SingleCalls
import CilLift.Proofs.EffectStatements
import CilLift.Proofs.StraightLine
import CilLift.Proofs.Reconstruction
import CilLift.Proofs.DeadCode
import CilLift.Proofs.Reentrance
import CilLift.Proofs.Hygiene
import CilLift.Proofs.Cacheability
import CilLift.Proofs.Ranges.Run
import CilLift.Proofs.Transparency
import CilLift.Proofs.Absorption
import CilLift.Proofs.NestedMerge
import CilLift.Proofs.Selection
import CilLift.Proofs.NumberConversion
import CilLift.Proofs.TypeContract
import CilLift.Proofs.ArrayInitializer
import CilLift.Proofs.TrailingVariable
import CilLift.Proofs.ComparisonJumps
import CilLift.Proofs.NormalForms
import CilLift.Proofs.FreshNames
