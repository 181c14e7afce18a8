import StringForms.Settings.Store
import StringForms.Node.Equality
import StringForms.Sexp.Cursor
import StringForms.Sexp.Reader
import StringForms.Sexp.Printer
import StringForms.Source.Form
import StringForms.Proofs.Node.Occurrence
import StringForms.Proofs.Sexp.Reading
import StringForms.Proofs.Sexp.Spelling
import StringForms.Proofs.Sexp.Cutting
import StringForms.Proofs.Sexp.RoundTrip
import StringForms.Proofs.Page.Fault
import StringForms.Proofs.Node.Offender
import StringForms.Proofs.Source.Fault
import StringForms.Proofs.Source.Literal
import StringForms.Proofs.Page.Flush
import StringForms.Proofs.Source.Plain
import StringForms.Proofs.Page.Fragment
import StringForms.Proofs.Source.Quoted
import StringForms.Proofs.Page.Extends
import StringForms.Proofs.Source.Session
import StringForms.Proofs.Source.Interpolation
import StringForms.Proofs.Source.Backslashes
import StringForms.Proofs.Source.HeredocSplices
import StringForms.Proofs.Source.Interior
import StringForms.Proofs.Source.Splitting
import StringForms.Proofs.Source.Layout
import StringForms.Proofs.Source.References
import StringForms.Proofs.Page.Alike
import StringForms.Proofs.Source.LabelLines
import StringForms.Proofs.Source.Terminator
import StringForms.Proofs.Source.SpliceLines
import StringForms.Proofs.Page.Opened
import StringForms.Proofs.Source.Indentation
import StringForms.Proofs.Source.Deferral
import StringForms.Proofs.Sexp.Lexicon
import StringForms.Proofs.Sexp.Tokenization
import StringForms.Proofs.Sexp.Escapes
import StringForms.Proofs.Sexp.Positions
import StringForms.Proofs.Sexp.EscapeUnits
import StringForms.Proofs.Sexp.Descent
import StringForms.Proofs.Sexp.Truncation
import StringForms.Proofs.Sexp.Unescaping
import StringForms.Proofs.Sexp.Joining
import StringForms.Proofs.Files.Tree
import StringForms.Proofs.Files.Path
import StringForms.Proofs.Toml.Document
import StringForms.Proofs.Settings.Store
import StringForms.Proofs.Source.Symbols
import StringForms.Proofs.Source.Runs
import StringForms.Proofs.Page.Lines
